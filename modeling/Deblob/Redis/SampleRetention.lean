import Deblob.Redis.Samples
import Deblob.Lib.TransitionSystem

/-!
# How long samples are kept

The time index and the payload hash always hold the same ids, never more than the maximum. The
scores are the times of the first captures as long as no sample is captured again after it was
removed, and then what is listed is within the retention if the newest stored samples are.
-/

namespace Deblob.Redis

open Core Lib

/-- The store, the server's last time, and the time at which each sample was first put. -/
structure SampleRun where
  store : SampleStore
  clock : ℕ
  firstCapture : CandidateId → String → Option ℕ

structure SamplePut (Body : Type) where
  nowMs : ℕ
  sample : SampleRecord Body

namespace SampleRun

variable {Body : Type}

def stored (state : SampleRun) (candidateId : CandidateId) (nowMs : ℕ) : SampleKeys :=
  (state.store candidateId).live nowMs

/-- The sample was put before. -/
def Captured (state : SampleRun) (sample : SampleRecord Body) : Prop :=
  (state.firstCapture sample.candidateId sample.sampleId).isSome

instance (state : SampleRun) (sample : SampleRecord Body) : Decidable (state.Captured sample) :=
  inferInstanceAs (Decidable (_ = true))

/-- The first captures after a put. -/
def capture (state : SampleRun) (put : SamplePut Body) : CandidateId → String → Option ℕ :=
  if (state.firstCapture put.sample.candidateId put.sample.sampleId).isSome then state.firstCapture
  else Function.update state.firstCapture put.sample.candidateId
    (Function.update (state.firstCapture put.sample.candidateId) put.sample.sampleId
      (some put.nowMs))

end SampleRun

variable {Body : Type} (codec : SampleCodec Body) (opts : SampleStoreOpts)

/-- A put, the clock it moves and the first captures it records. -/
def SampleRun.after (state : SampleRun) (put : SamplePut Body) : SampleRun where
  store := (putSample codec opts put.nowMs put.sample state.store).2
  clock := put.nowMs
  firstCapture := state.capture put

/-- Puts in any order, at times that never go back. -/
def sampleMachine : Machine SampleRun (SamplePut Body) where
  init := ⟨fun _ ↦ .none, 0, fun _ _ ↦ none⟩
  step state put := if state.clock ≤ put.nowMs then some (state.after codec opts put) else none

/-- A sample that was put before is still stored, or would not stay if it was inserted again. -/
def StillStored (state : SampleRun) (put : SamplePut Body) : Prop :=
  state.Captured put.sample →
    put.sample.sampleId ∈ (state.stored put.sample.candidateId put.nowMs).index.members ∨
    opts.keyTtlSecs = 0 ∨
    (state.stored put.sample.candidateId put.nowMs).index.entries.length = opts.maxPerCandidate ∧
      ∀ entry ∈ (state.stored put.sample.candidateId put.nowMs).index.entries,
        rankLe (put.sample.sampleId, put.nowMs) entry

/-- A listing is not empty of room, and the newest stored samples are within the retention. -/
def WithinRetention (state : SampleRun) (nowMs : ℕ) (candidateId : CandidateId) (limit : ℕ) :
    Prop :=
  (limit = 0 → (state.stored candidateId nowMs).index.entries = []) ∧
    ∀ entry ∈ (state.stored candidateId nowMs).index.entries.reverse.take limit,
      nowMs ≤ entry.2 + opts.retentionMs

/-- What is stored in every state of every run. -/
structure Bounded (state : SampleRun) : Prop where
  matched : ∀ candidateId, (state.store candidateId).Matched
  length : ∀ candidateId, (state.store candidateId).index.entries.length ≤ opts.maxPerCandidate
  ttl : opts.keyTtlSecs = 0 → ∀ candidateId, state.store candidateId = .none

/-- The scores are the times of the first captures, and the payloads are the captured samples. -/
structure FirstScores (state : SampleRun) : Prop where
  scores : ∀ candidateId, ∀ entry ∈ (state.store candidateId).index.entries,
    state.firstCapture candidateId entry.1 = some entry.2
  payloads : ∀ candidateId sampleId json,
    (state.store candidateId).payloads sampleId = some json →
      ∃ sample : SampleRecord Body, json = codec.toJson sample ∧
        sample.candidateId = candidateId ∧ sample.sampleId = sampleId

variable {codec opts} {state next : SampleRun} {put : SamplePut Body}

theorem step_eq_some (hstep : (sampleMachine codec opts).step state put = some next) :
    next = state.after codec opts put := by
  simp only [sampleMachine] at hstep
  split at hstep
  · exact (Option.some.inj hstep).symm
  · cases hstep

/-- A call changes the keys of one candidate, by the script. -/
theorem step_store (hstep : (sampleMachine codec opts).step state put = some next)
    (candidateId : CandidateId) :
    candidateId = put.sample.candidateId ∧
        next.store candidateId = ((state.store candidateId).putScript opts put.nowMs
          put.sample.sampleId (codec.toJson put.sample)).2 ∨
      candidateId ≠ put.sample.candidateId ∧
        next.store candidateId = state.store candidateId := by
  obtain rfl := step_eq_some hstep
  by_cases hcandidate : candidateId = put.sample.candidateId
  · subst hcandidate
    exact .inl ⟨rfl, Function.update_self _ _ _⟩
  · exact .inr ⟨hcandidate, Function.update_of_ne hcandidate _ _⟩

/-- A time that is recorded stays. -/
theorem capture_of_some {candidateId : CandidateId} {sampleId : String} {time : ℕ}
    (hfirst : state.firstCapture candidateId sampleId = some time) :
    state.capture put candidateId sampleId = some time := by
  rw [SampleRun.capture]
  split
  · exact hfirst
  · rename_i hnew
    by_cases hcandidate : candidateId = put.sample.candidateId
    · subst hcandidate
      rw [Function.update_self]
      by_cases hid : sampleId = put.sample.sampleId
      · subst hid
        exact absurd (Option.isSome_of_mem hfirst) hnew
      · rw [Function.update_of_ne hid]
        exact hfirst
    · rw [Function.update_of_ne hcandidate]
      exact hfirst

theorem capture_new (hnew : ¬state.Captured put.sample) :
    state.capture put put.sample.candidateId put.sample.sampleId = some put.nowMs := by
  unfold SampleRun.Captured at hnew
  rw [SampleRun.capture, if_neg hnew, Function.update_self, Function.update_self]

theorem Bounded.step (hbounded : Bounded opts state)
    (hstep : (sampleMachine codec opts).step state put = some next) : Bounded opts next := by
  constructor
  · intro candidateId
    rcases step_store hstep candidateId with ⟨-, hstore⟩ | ⟨-, hstore⟩
    · rw [hstore]
      exact SampleKeys.matched_putScript (hbounded.matched candidateId)
    · rw [hstore]
      exact hbounded.matched candidateId
  · intro candidateId
    rcases step_store hstep candidateId with ⟨-, hstore⟩ | ⟨-, hstore⟩
    · rw [hstore]
      exact SampleKeys.length_putScript
    · rw [hstore]
      exact hbounded.length candidateId
  · intro httl candidateId
    rcases step_store hstep candidateId with ⟨-, hstore⟩ | ⟨-, hstore⟩
    · rw [hstore, SampleKeys.putScript, SampleKeys.expire, if_pos httl]
    · rw [hstore]
      exact hbounded.ttl httl candidateId

theorem bounded_init : Bounded opts (sampleMachine codec opts).init :=
  ⟨fun _ ↦ SampleKeys.matched_none, fun _ ↦ Nat.zero_le _, fun _ _ ↦ rfl⟩

theorem bounded_of_reachable {guard : SampleRun → SamplePut Body → Prop}
    (hreached : (sampleMachine codec opts).Reachable guard state) : Bounded opts state :=
  hreached.invariant bounded_init fun _ _ _ hbounded _ hstep ↦ hbounded.step hstep

/-- A call for a sample that was put before leaves what is stored and within the retention. -/
theorem onlyAged_of_captured (hbounded : Bounded opts state) (hstill : StillStored opts state put)
    (hcaptured : state.Captured put.sample)
    (hstep : (sampleMachine codec opts).step state put = some next) :
    SampleKeys.OnlyAged opts put.nowMs (state.stored put.sample.candidateId put.nowMs)
      (next.stored put.sample.candidateId put.nowMs) := by
  have hlength : (state.stored put.sample.candidateId put.nowMs).index.entries.length ≤
      opts.maxPerCandidate := SampleKeys.length_live.trans (hbounded.length _)
  rcases step_store hstep put.sample.candidateId with ⟨-, hstore⟩ | ⟨hother, -⟩
  · rw [SampleRun.stored, SampleRun.stored, hstore, SampleKeys.live_putScript]
    by_cases httl : opts.keyTtlSecs = 0
    · rw [hbounded.ttl httl, SampleKeys.live_none, SampleKeys.putScript, SampleKeys.expire,
        if_pos httl]
      exact SampleKeys.onlyAged_none
    · by_cases hmember : put.sample.sampleId ∈
          (state.stored put.sample.candidateId put.nowMs).index.members
      · exact SampleKeys.putScript_stored httl hlength hmember
      · rcases hstill hcaptured with hstored | hzero | ⟨hfull, hlowest⟩
        · exact absurd hstored hmember
        · exact absurd hzero httl
        · exact SampleKeys.putScript_pushed_out httl hmember hfull hlowest
  · exact absurd rfl hother

/-- The scores stay the times of the first captures. -/
theorem FirstScores.step (hfirst : FirstScores codec state) (hbounded : Bounded opts state)
    (hstill : StillStored opts state put)
    (hstep : (sampleMachine codec opts).step state put = some next) : FirstScores codec next := by
  have hcapture : next.firstCapture = state.capture put := by
    rw [step_eq_some hstep]
    rfl
  constructor
  · intro candidateId entry hentry
    rw [hcapture]
    rcases step_store hstep candidateId with ⟨rfl, hstore⟩ | ⟨-, hstore⟩
    · by_cases hcaptured : state.Captured put.sample
      · have haged := onlyAged_of_captured hbounded hstill hcaptured hstep
        rw [SampleRun.stored, SampleRun.stored, hstore, SampleKeys.live_putScript, ← hstore]
          at haged
        rw [haged.entries] at hentry
        exact capture_of_some
          (hfirst.scores _ entry (SampleKeys.mem_of_mem_live (List.mem_filter.mp hentry).1))
      · rw [hstore] at hentry
        rcases SampleKeys.mem_putScript hentry with ⟨rfl, -⟩ | hold
        · exact capture_new hcaptured
        · exact capture_of_some (hfirst.scores _ entry (SampleKeys.mem_of_mem_live hold))
    · rw [hstore] at hentry
      exact capture_of_some (hfirst.scores _ entry hentry)
  · intro candidateId sampleId json hpayload
    rcases step_store hstep candidateId with ⟨rfl, hstore⟩ | ⟨-, hstore⟩
    · rw [hstore] at hpayload
      rcases SampleKeys.payloads_putScript hpayload with ⟨rfl, rfl⟩ | hold
      · exact ⟨put.sample, rfl, rfl, rfl⟩
      · exact hfirst.payloads _ _ _ (SampleKeys.payloads_of_live hold)
    · rw [hstore] at hpayload
      exact hfirst.payloads _ _ _ hpayload

theorem firstScores_of_reachable
    (hreached : (sampleMachine codec opts).Reachable (StillStored opts) state) :
    FirstScores codec state := by
  have hboth : Bounded opts state ∧ FirstScores codec state := by
    apply hreached.invariant
    · refine ⟨bounded_init, ?_, ?_⟩
      · intro _ _ hentry
        cases hentry
      · intro _ _ _ hpayload
        cases hpayload
    · intro state put next hinv hstill hstep
      exact ⟨hinv.1.step hstep, hinv.2.step hinv.1 hstill hstep⟩
  exact hboth.2

/-- What a listing may hold: no more than asked for, the latest first captures first, and nothing
that was first captured longer ago than the retention. -/
structure Listed (opts : SampleStoreOpts) (firstCapture : String → Option ℕ) (nowMs limit : ℕ)
    (records : List (SampleRecord Body)) : Prop where
  length : records.length ≤ limit
  times : ∃ times : List ℕ, records.map (fun record ↦ firstCapture record.sampleId) =
      times.map some ∧ times.Pairwise (fun newer older ↦ older ≤ newer) ∧
    ∀ time ∈ times, nowMs ≤ time + opts.retentionMs

/-- The records of some stored entries, in their order. -/
theorem records_ids {keys : SampleKeys} {entries : List (String × ℕ)}
    (hpayloads : ∀ entry ∈ entries, ∃ sample : SampleRecord Body,
      keys.payloads entry.1 = some (codec.toJson sample) ∧ sample.sampleId = entry.1) :
    (((entries.filterMap fun entry ↦ keys.payloads entry.1).filterMap codec.fromJson).map
      SampleRecord.sampleId) = entries.map Prod.fst := by
  induction entries with
  | nil => rfl
  | cons entry entries ih =>
      rcases List.forall_mem_cons.mp hpayloads with ⟨⟨sample, hpayload, hid⟩, hrest⟩
      simp only [List.filterMap_cons, hpayload, codec.fromJson_toJson, List.map_cons, ih hrest, hid]

theorem listed_listSamples (hbounded : Bounded opts state) (hfirst : FirstScores codec state)
    {nowMs limit : ℕ} {candidateId : CandidateId}
    (hwithin : WithinRetention opts state nowMs candidateId limit) :
    Listed opts (state.firstCapture candidateId) nowMs limit
      (listSamples codec nowMs candidateId limit state.store) := by
  have hnewest : (state.stored candidateId nowMs).newest limit =
      (state.stored candidateId nowMs).index.entries.reverse.take limit := by
    unfold SampleKeys.newest
    rcases Nat.eq_zero_or_pos limit with hzero | hpositive
    · rw [hwithin.1 hzero, List.reverse_nil, List.take_nil, List.take_nil]
    · rw [Nat.sub_add_cancel hpositive]
  have hmem : ∀ entry ∈ (state.stored candidateId nowMs).index.entries.reverse.take limit,
      entry ∈ (state.stored candidateId nowMs).index.entries := fun entry hentry ↦
    List.mem_reverse.mp (List.mem_of_mem_take hentry)
  have hids := @records_ids _ codec (state.stored candidateId nowMs)
    ((state.stored candidateId nowMs).index.entries.reverse.take limit) (by
      intro entry hentry
      have hmember := (((hbounded.matched candidateId).live nowMs) entry.1).mp
        (List.mem_map_of_mem (hmem entry hentry))
      rcases Option.isSome_iff_exists.mp hmember with ⟨json, hpayload⟩
      rcases hfirst.payloads _ _ _ (SampleKeys.payloads_of_live hpayload) with
        ⟨sample, rfl, -, hid⟩
      exact ⟨sample, hpayload, hid⟩)
  have hlist : (listSamples codec nowMs candidateId limit state.store).map SampleRecord.sampleId =
      ((state.stored candidateId nowMs).index.entries.reverse.take limit).map Prod.fst := by
    rw [← hids, ← hnewest]
    rfl
  constructor
  · rw [← List.length_map SampleRecord.sampleId, hlist, List.length_map]
    exact List.length_take_le _ _
  · refine ⟨((state.stored candidateId nowMs).index.entries.reverse.take limit).map Prod.snd,
      ?_, ?_, ?_⟩
    · calc (listSamples codec nowMs candidateId limit state.store).map
            (fun record ↦ state.firstCapture candidateId record.sampleId)
          = ((listSamples codec nowMs candidateId limit state.store).map
              SampleRecord.sampleId).map (state.firstCapture candidateId) :=
            (List.map_map ..).symm
        _ = (((state.stored candidateId nowMs).index.entries.reverse.take limit).map
              Prod.fst).map (state.firstCapture candidateId) := by rw [hlist]
        _ = (((state.stored candidateId nowMs).index.entries.reverse.take limit).map
              Prod.snd).map some := by
            rw [List.map_map, List.map_map]
            refine List.map_congr_left fun entry hentry ↦ ?_
            exact hfirst.scores _ entry (SampleKeys.mem_of_mem_live (hmem entry hentry))
    · rw [List.pairwise_map]
      refine List.Pairwise.sublist (List.take_sublist _ _) (List.pairwise_reverse.mpr ?_)
      exact (state.stored candidateId nowMs).index.sorted.imp fun hle ↦ score_le_of_rankLe hle
    · intro time htime
      rcases List.mem_map.mp htime with ⟨entry, hentry, rfl⟩
      exact hwithin.2 entry hentry

/-- In every run the two keys of a candidate hold the same ids, at most the maximum. In a run in
which no sample is captured again after it was removed, a later call for a captured sample leaves
what is stored and within the retention, and all of it when nothing is past the retention; and the
listings that meet `WithinRetention` hold what they may. -/
theorem samples_retained (codec : SampleCodec Body) (opts : SampleStoreOpts) :
    (∀ state, (sampleMachine codec opts).Reachable Machine.always state →
      ∀ nowMs candidateId, (state.stored candidateId nowMs).Matched ∧
        (state.stored candidateId nowMs).index.entries.length ≤ opts.maxPerCandidate) ∧
    ∀ state, (sampleMachine codec opts).Reachable (StillStored opts) state →
      (∀ put next, state.Captured put.sample → StillStored opts state put →
        (sampleMachine codec opts).step state put = some next →
          SampleKeys.OnlyAged opts put.nowMs (state.stored put.sample.candidateId put.nowMs)
            (next.stored put.sample.candidateId put.nowMs) ∧
          ((∀ entry ∈ (state.stored put.sample.candidateId put.nowMs).index.entries,
              put.nowMs ≤ entry.2 + opts.retentionMs) →
            (next.stored put.sample.candidateId put.nowMs).index =
                (state.stored put.sample.candidateId put.nowMs).index ∧
              (next.stored put.sample.candidateId put.nowMs).payloads =
                (state.stored put.sample.candidateId put.nowMs).payloads)) ∧
      ∀ nowMs candidateId limit, state.clock ≤ nowMs →
        WithinRetention opts state nowMs candidateId limit →
          Listed opts (state.firstCapture candidateId) nowMs limit
            (listSamples codec nowMs candidateId limit state.store) := by
  constructor
  · intro state hreached nowMs candidateId
    have hbounded := bounded_of_reachable hreached
    exact ⟨(hbounded.matched candidateId).live nowMs,
      SampleKeys.length_live.trans (hbounded.length candidateId)⟩
  · intro state hreached
    have hbounded := bounded_of_reachable hreached
    constructor
    · intro put next hcaptured hstill hstep
      have haged := onlyAged_of_captured hbounded hstill hcaptured hstep
      refine ⟨haged, haged.unchanged ((hbounded.matched _).live _) ?_⟩
      exact ((hbounded.step hstep).matched _).live _
    · intro nowMs candidateId limit _ hwithin
      exact listed_listSamples hbounded (firstScores_of_reachable hreached) hwithin

/-- Samples without a body as JSON, for sample ids that need no escapes. -/
def bareCodec : SampleCodec Unit where
  toJson sample := "\x7b\"sample_id\":\"" ++ sample.sampleId ++ "\",\"candidate_id\":\"" ++
    sample.candidateId.asStr ++ "\"\x7d"
  fromJson text :=
    let rest := text.toList.drop 14
    (DigestId.parse (String.ofList ((rest.drop (rest.length - 59)).take 57))).map fun id ↦
      ⟨String.ofList (rest.take (rest.length - 77)), id, ()⟩
  fromJson_toJson := by
    rintro ⟨sampleId, candidateId, ⟨⟩⟩
    have hlength : candidateId.asStr.toList.length = 57 := candidateId.length_asStr
    have hbefore : sampleId.toList.drop (sampleId.toList.length + 18) = [] :=
      List.drop_eq_nil_of_le (Nat.le_add_right _ _)
    simp [hlength, List.drop_append, hbefore, List.take_left']

/-- The retention is a minute, and only the newest sample is kept. -/
def minuteOpts : SampleStoreOpts := ⟨1, 60, 120⟩

def bareSample (sampleId : String) : SampleRecord Unit :=
  ⟨sampleId, .fromDigest (.replicate 32 0), ()⟩

def barePut (nowMs : ℕ) (sampleId : String) (state : SampleRun) : SampleRun :=
  state.after bareCodec minuteOpts ⟨nowMs, bareSample sampleId⟩

/-- The store after its first sample. -/
def oneSample : SampleRun := barePut 0 "smp_a" (sampleMachine bareCodec minuteOpts).init

/-- A sample is put again, and then listed. -/
theorem samples_retained_twice :
    ((barePut 1 "smp_a" oneSample).stored (bareSample "smp_a").candidateId 1).index =
        (oneSample.stored (bareSample "smp_a").candidateId 1).index ∧
      Listed minuteOpts ((barePut 1 "smp_a" oneSample).firstCapture
        (bareSample "smp_a").candidateId) 60000 20
        (listSamples bareCodec 60000 (bareSample "smp_a").candidateId 20
          (barePut 1 "smp_a" oneSample).store) := by
  have hone : (sampleMachine bareCodec minuteOpts).Reachable (StillStored minuteOpts) oneSample :=
    .step .refl (fun hcaptured ↦ absurd hcaptured (by decide +kernel)) rfl
  have hstill : StillStored minuteOpts oneSample ⟨1, bareSample "smp_a"⟩ :=
    fun _ ↦ .inl (by decide +kernel)
  have htwo : (sampleMachine bareCodec minuteOpts).Reachable (StillStored minuteOpts)
      (barePut 1 "smp_a" oneSample) := .step hone hstill rfl
  constructor
  · exact ((((samples_retained bareCodec minuteOpts).2 _ hone).1 ⟨1, bareSample "smp_a"⟩ _
      (by decide +kernel) hstill rfl).2 (by decide +kernel)).1
  · exact ((samples_retained bareCodec minuteOpts).2 _ htwo).2 60000 _ 20 (by decide)
      ⟨by decide, by decide +kernel⟩

/-- A sample is listed a minute and a millisecond after its only put, also when no sample is asked
for. Pushed out by a second one and put again, it is stored again. -/
theorem removed_sample_stored_again :
    (sampleMachine bareCodec minuteOpts).Reachable Machine.always oneSample ∧
      oneSample.firstCapture (bareSample "smp_a").candidateId "smp_a" = some 0 ∧
      listSamples bareCodec 60001 (bareSample "smp_a").candidateId 0 oneSample.store =
        [bareSample "smp_a"] ∧
      (sampleMachine bareCodec minuteOpts).Reachable Machine.always
        (barePut 1 "smp_b" oneSample) ∧
      (barePut 1 "smp_b" oneSample).Captured (bareSample "smp_a") ∧
      ((barePut 1 "smp_b" oneSample).stored (bareSample "smp_a").candidateId 2).index.members =
        ["smp_b"] ∧
      (sampleMachine bareCodec minuteOpts).step (barePut 1 "smp_b" oneSample)
        ⟨2, bareSample "smp_a"⟩ = some (barePut 2 "smp_a" (barePut 1 "smp_b" oneSample)) ∧
      ((barePut 2 "smp_a" (barePut 1 "smp_b" oneSample)).stored
        (bareSample "smp_a").candidateId 2).index.members = ["smp_a"] := by
  have hone : (sampleMachine bareCodec minuteOpts).Reachable Machine.always oneSample :=
    .step .refl trivial rfl
  refine ⟨hone, ?_, ?_, .step hone trivial rfl, ?_, ?_, rfl, ?_⟩
  · decide +kernel
  · decide +kernel
  · decide +kernel
  · decide +kernel
  · decide +kernel

end Deblob.Redis
