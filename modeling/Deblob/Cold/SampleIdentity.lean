import Deblob.Cold.SampleCapture
import Deblob.Http.Ingest
import Deblob.Lib.TransitionSystem

/-!
# Sample identity across listeners, relays and restarts

Any number of listener processes and relay transactions feed one discovery topic, and its consumer
may read a message many times. The broker's coordinates name a relayed record for good, but the
counter of a listener starts again with its process, under the same source. Samples are told apart
as long as no two lifetimes of a listener enqueue under one address. The JSON form in which messages
are on the topic is left out.
-/

namespace Deblob.Cold

open Core Lib Redis
open Kafka (BatchEnv RawRecord RelayCfg SettleState TopicPartition)

/-- The message that was observed: a request, by its number among all of them, or a record. -/
inductive Observed where
  | request (number : ℕ)
  | record (tp : TopicPartition) (offset : ℕ)
deriving DecidableEq

/-- A process that serves, or served, an address; the counter is its own. -/
structure Listener where
  proxy : Http.ProxyState
  offset : ℕ

/-- A sample that was handed to the store, and whether the store took it for a new one. -/
structure SampleAttempt where
  observed : Observed
  candidateId : CandidateId
  sampleId : String
  inserted : Bool
deriving DecidableEq

structure SamplingState where
  listeners : ℕ → Option Listener
  requests : ℕ
  topic : List (Observed × Kafka.DiscoveryMsg)
  store : SampleStore
  attempts : List SampleAttempt

inductive SamplingLabel where
  /-- A process starts: the first one, a replica, or one after a restart. -/
  | start (process : ℕ) (cfg : Http.HttpProxyCfg) (classify : String → Bytes → Classification)
    (discovery : Bool)
  /-- A process serves a request; what it enqueues may get lost. -/
  | ingest (process : ℕ) (env : Http.RequestEnv) (request : Http.Request) (landed : Bool)
  /-- A relay commits the evidence of a record, for the first time or again. -/
  | relay (cfg : RelayCfg) (env : BatchEnv) (settle : SettleState) (tp : TopicPartition)
    (raw : RawRecord)
  /-- The consumer reads a message, for the first time or again. -/
  | consume (index nowMs : ℕ) (capturedAtMs : ℤ) (candidateId : CandidateId)

/-- The evidence a relay enqueues for a record. -/
def relayEvidence (cfg : RelayCfg) (env : BatchEnv) (settle : SettleState) (tp : TopicPartition)
    (raw : RawRecord) : List Kafka.DiscoveryMsg :=
  match raw.payload with
  | none => []
  | some payload =>
    match (env.classify (raw.cursor tp) payload).schemaRef,
      (Kafka.runTransactionBody cfg env (raw.received tp) settle).1 with
    | .provisional candId, .ok (_, outputs) =>
      if outputs.any fun output ↦ output.lane == .discovery then
        [⟨candId.asStr, payload, tp.1, raw.cursor tp⟩]
      else []
    | _, _ => []

section

variable (sha256 : Bytes → Digest) (detectors : Dlp.Detectors) (json : DocumentJson)
  (capture : SampleCaptureCfg) (sampleJson : SampleRecord SampleBody → String)
  (opts : SampleStoreOpts)

/-- `handle_discovery_msg` behind an ingested message: build its sample and put it. -/
def captureSample (state : SamplingState) (observed : Observed) (msg : Kafka.DiscoveryMsg)
    (nowMs : ℕ) (capturedAtMs : ℤ) (candidateId : CandidateId) : SamplingState :=
  match buildSample sha256 detectors json capture msg.source msg.cursor.topic msg.cursor.partition
    msg.cursor.offset candidateId msg.payload capturedAtMs with
  | none => state
  | some sample =>
    let result := (state.store sample.candidateId).putScript opts nowMs sample.sampleId
      (sampleJson sample)
    { state with
      store := Function.update state.store sample.candidateId result.2
      attempts := state.attempts ++ [⟨observed, candidateId, sample.sampleId, result.1⟩] }

def samplingStep (state : SamplingState) : SamplingLabel → Option SamplingState
  | .start process cfg classify discovery =>
    match state.listeners process with
    | some _ => none
    | none => (cfg.run classify discovery).map fun proxy ↦
        { state with listeners := Function.update state.listeners process (some ⟨proxy, 0⟩) }
  | .ingest process env request landed =>
    (state.listeners process).map fun listener ↦
      let handled := Http.ingestHandler listener.proxy env listener.offset request
      { state with
        listeners := Function.update state.listeners process
          (some ⟨listener.proxy, handled.offset⟩)
        requests := state.requests + 1
        topic := state.topic ++ (if landed then handled.enqueued else none).toList.map
          (.request state.requests, ·) }
  | .relay cfg env settle tp raw =>
    -- the broker's coordinates are an `i32` and an `i64`
    if tp.2 < 2 ^ 31 ∧ raw.offset < 2 ^ 63 then
      some { state with
        topic := state.topic ++ (relayEvidence cfg env settle tp raw).map
          (.record tp raw.offset, ·) }
    else none
  | .consume index nowMs capturedAtMs candidateId =>
    state.topic[index]?.map fun message ↦
      captureSample sha256 detectors json capture sampleJson opts state message.1 message.2 nowMs
        capturedAtMs candidateId

def samplingMachine : Machine SamplingState SamplingLabel where
  init := ⟨fun _ ↦ none, 0, [], fun _ ↦ .none, []⟩
  step := samplingStep sha256 detectors json capture sampleJson opts

end

/-! ## What identifiers have to say -/

/-- The identifier of the sample of a message. -/
def sampleIdOf (sha256 : Bytes → Digest) (msg : Kafka.DiscoveryMsg) : String :=
  sampleId sha256 (.fromSource sha256 msg.source) msg.cursor.topic msg.cursor.partition
    msg.cursor.offset

def preimageOf (sha256 : Bytes → Digest) (msg : Kafka.DiscoveryMsg) : Bytes :=
  samplePreimage (.fromSource sha256 msg.source) msg.cursor.topic msg.cursor.partition
    msg.cursor.offset

/-- No two of the texts that are hashed for the messages collide. -/
structure CollisionFree (sha256 : Bytes → Digest)
    (messages : List (Observed × Kafka.DiscoveryMsg)) : Prop where
  sources : ∀ first ∈ messages, ∀ second ∈ messages,
    sha256 (115 :: utf8 first.2.source) = sha256 (115 :: utf8 second.2.source) →
      first.2.source = second.2.source
  preimages : ∀ first ∈ messages, ∀ second ∈ messages,
    halfDigest sha256 (preimageOf sha256 first.2) =
      halfDigest sha256 (preimageOf sha256 second.2) →
      preimageOf sha256 first.2 = preimageOf sha256 second.2

/-- Messages are the same exactly if their samples are, and a sample the store did not take was put
before for the same message. -/
structure Faithful (sha256 : Bytes → Digest) (state : SamplingState) : Prop where
  ids : ∀ first ∈ state.topic, ∀ second ∈ state.topic,
    sampleIdOf sha256 first.2 = sampleIdOf sha256 second.2 ↔ first.1 = second.1
  attempts : ∀ first ∈ state.attempts, ∀ second ∈ state.attempts,
    first.sampleId = second.sampleId ↔ first.observed = second.observed
  replays : ∀ attempt ∈ state.attempts, attempt.inserted = false →
    ∃ earlier ∈ state.attempts, earlier.inserted = true ∧ earlier.observed = attempt.observed ∧
      earlier.candidateId = attempt.candidateId ∧ earlier.sampleId = attempt.sampleId

/-- A listener that enqueues has not used up its 64-bit counter, and no other lifetime of a listener
with its address has enqueued anything. -/
def OneLifetime (state : SamplingState) : SamplingLabel → Prop
  | .ingest process _ request landed =>
    ∀ listener, state.listeners process = some listener →
      landed = true ∧ Http.enqueues listener.proxy request = true →
        listener.offset < 2 ^ 64 ∧
          ∀ other otherListener, other ≠ process → state.listeners other = some otherListener →
            otherListener.proxy.originPrefix = listener.proxy.originPrefix →
              otherListener.offset = 0
  | _ => True

/-! ## Where a message comes from -/

/-- What the coordinates of a message say about where it was observed. -/
def Placed (state : SamplingState) (msg : Kafka.DiscoveryMsg) : Observed → Prop
  | .request number => number < state.requests ∧ msg.cursor.topic = "http" ∧
      msg.cursor.partition = 0 ∧ msg.cursor.offset < 2 ^ 64 ∧
      ∃ process listener, state.listeners process = some listener ∧
        listener.proxy.originPrefix = msg.source ∧ msg.cursor.offset < listener.offset
  | .record tp offset => msg.source = tp.1 ∧ msg.cursor = ⟨tp.1, tp.2, offset⟩ ∧ tp.2 < 2 ^ 31 ∧
      offset < 2 ^ 63

/-- Processes keep what they serve and never count back. -/
structure Grown (state next : SamplingState) : Prop where
  requests : state.requests ≤ next.requests
  listeners : ∀ process listener, state.listeners process = some listener →
    ∃ later, next.listeners process = some later ∧ later.proxy = listener.proxy ∧
      listener.offset ≤ later.offset

theorem Placed.mono {state next : SamplingState} (hgrown : Grown state next)
    {msg : Kafka.DiscoveryMsg} {observed : Observed} (hplaced : Placed state msg observed) :
    Placed next msg observed := by
  cases observed with
  | request number =>
      obtain ⟨hnumber, htopic, hpartition, hoffset, process, listener, hlistener, hsource, hlt⟩ :=
        hplaced
      obtain ⟨later, hlater, hproxy, hle⟩ := hgrown.listeners process listener hlistener
      exact ⟨hnumber.trans_le hgrown.requests, htopic, hpartition, hoffset, process, later, hlater,
        hproxy ▸ hsource, hlt.trans_le hle⟩
  | record tp offset => exact hplaced

/-- The coordinates of a message determine its source identifier's and its digest's input. -/
theorem Placed.bounds {state : SamplingState} {msg : Kafka.DiscoveryMsg} {observed : Observed}
    (hplaced : Placed state msg observed) :
    msg.cursor.partition < 256 ^ 4 ∧ msg.cursor.offset < 256 ^ 8 := by
  cases observed with
  | request number =>
      obtain ⟨-, -, hpartition, hoffset, -⟩ := hplaced
      omega
  | record tp offset =>
      obtain ⟨-, hcursor, hpartition, hoffset⟩ := hplaced
      rw [hcursor]
      constructor
      · exact hpartition.trans (by decide)
      · exact hoffset.trans (by decide)

/-- What every step keeps while no listener enqueues in two lifetimes. -/
structure SamplingInv (sha256 : Bytes → Digest) (state : SamplingState) : Prop where
  origins : ∀ process listener, state.listeners process = some listener →
    ∃ addr, listener.proxy.originPrefix = "http/" ++ addr
  placed : ∀ message ∈ state.topic, Placed state message.2 message.1
  requests : ∀ number msg other otherMsg, (.request number, msg) ∈ state.topic →
    (.request other, otherMsg) ∈ state.topic →
    (number = other ↔ msg.source = otherMsg.source ∧ msg.cursor.offset = otherMsg.cursor.offset)
  attempted : ∀ attempt ∈ state.attempts, ∃ message ∈ state.topic,
    message.1 = attempt.observed ∧ sampleIdOf sha256 message.2 = attempt.sampleId
  stored : ∀ candidateId, ∀ sampleId ∈ (state.store candidateId).index.members,
    ∃ attempt ∈ state.attempts, attempt.inserted = true ∧ attempt.candidateId = candidateId ∧
      attempt.sampleId = sampleId
  refused : ∀ attempt ∈ state.attempts, attempt.inserted = false →
    ∃ earlier ∈ state.attempts, earlier.inserted = true ∧
      earlier.candidateId = attempt.candidateId ∧ earlier.sampleId = attempt.sampleId

section

variable {sha256 : Bytes → Digest} {state next : SamplingState}

theorem cursor_eq_iff {cursor other : SourceCursor} :
    cursor = other ↔ cursor.topic = other.topic ∧ cursor.partition = other.partition ∧
      cursor.offset = other.offset := by
  cases cursor
  cases other
  exact Iff.of_eq (SourceCursor.mk.injEq ..)

/-- The source of a listener is not the topic its messages name, and that of a record is. -/
theorem SamplingInv.request_ne_record (hinv : SamplingInv sha256 state) {number : ℕ}
    {tp : TopicPartition} {offset : ℕ} {msg other : Kafka.DiscoveryMsg}
    (hrequest : Placed state msg (.request number))
    (hrecord : Placed state other (.record tp offset)) (hsource : msg.source = other.source)
    (hcursor : msg.cursor = other.cursor) : False := by
  obtain ⟨-, htopic, -, -, process, listener, hlistener, horigin, -⟩ := hrequest
  obtain ⟨hotherSource, hotherCursor, -⟩ := hrecord
  obtain ⟨addr, haddr⟩ := hinv.origins process listener hlistener
  have hname : "http/" ++ addr = "http" :=
    calc "http/" ++ addr = listener.proxy.originPrefix := haddr.symm
      _ = tp.1 := (horigin.trans hsource).trans hotherSource
      _ = other.cursor.topic := (congrArg SourceCursor.topic hotherCursor).symm
      _ = msg.cursor.topic := congrArg SourceCursor.topic hcursor.symm
      _ = "http" := htopic
  have hlength := congrArg (fun text : String ↦ text.toList.length) hname
  simp at hlength

/-- Source and coordinates tell the messages of a state apart. -/
theorem SamplingInv.observed_eq_iff (hinv : SamplingInv sha256 state)
    {first second : Observed × Kafka.DiscoveryMsg} (hfirst : first ∈ state.topic)
    (hsecond : second ∈ state.topic) :
    first.1 = second.1 ↔ first.2.source = second.2.source ∧ first.2.cursor = second.2.cursor := by
  obtain ⟨observed, msg⟩ := first
  obtain ⟨otherObserved, otherMsg⟩ := second
  have hplaced := hinv.placed _ hfirst
  have hotherPlaced := hinv.placed _ hsecond
  cases observed with
  | request number =>
      cases otherObserved with
      | request other =>
          rw [Observed.request.injEq, hinv.requests number msg other otherMsg hfirst hsecond]
          obtain ⟨-, htopic, hpartition, -⟩ := hplaced
          obtain ⟨-, hotherTopic, hotherPartition, -⟩ := hotherPlaced
          rw [cursor_eq_iff, htopic, hotherTopic, hpartition, hotherPartition]
          simp
      | record tp offset =>
          exact iff_of_false nofun fun heq ↦
            hinv.request_ne_record hplaced hotherPlaced heq.1 heq.2
  | record tp offset =>
      cases otherObserved with
      | request other =>
          exact iff_of_false nofun fun heq ↦
            hinv.request_ne_record hotherPlaced hplaced heq.1.symm heq.2.symm
      | record otherTp otherOffset =>
          obtain ⟨hsource, hcursor, -⟩ := hplaced
          obtain ⟨hotherSource, hotherCursor, -⟩ := hotherPlaced
          rw [hsource, hcursor, hotherSource, hotherCursor, Observed.record.injEq, Prod.ext_iff,
            SourceCursor.mk.injEq]
          tauto

/-- Samples are faithful in every state that keeps the invariant, as long as nothing hashed in it
collides. -/
theorem SamplingInv.faithful (hinv : SamplingInv sha256 state)
    (hfree : CollisionFree sha256 (state.topic)) : Faithful sha256 state := by
  have hids : ∀ first ∈ state.topic, ∀ second ∈ state.topic,
      sampleIdOf sha256 first.2 = sampleIdOf sha256 second.2 ↔ first.1 = second.1 := by
    intro first hfirst second hsecond
    rw [hinv.observed_eq_iff hfirst hsecond]
    constructor
    · intro hid
      have hpreimage := hfree.preimages first hfirst second hsecond
        (halfDigest_eq_of_sampleId_eq hid)
      obtain ⟨hpartition, hoffset⟩ := (hinv.placed first hfirst).bounds
      obtain ⟨hotherPartition, hotherOffset⟩ := (hinv.placed second hsecond).bounds
      obtain ⟨hsourceId, htopic, hpart, hoff⟩ :=
        samplePreimage_inj hpartition hotherPartition hoffset hotherOffset hpreimage
      have hsource := hfree.sources first hfirst second hsecond
        (DigestId.fromDigest_injective hsourceId)
      exact ⟨hsource, cursor_eq_iff.mpr ⟨htopic, hpart, hoff⟩⟩
    · rintro ⟨hsource, hcursor⟩
      unfold sampleIdOf
      rw [hsource, hcursor]
  have hattempts : ∀ first ∈ state.attempts, ∀ second ∈ state.attempts,
      first.sampleId = second.sampleId ↔ first.observed = second.observed := by
    intro first hfirst second hsecond
    obtain ⟨message, hmessage, hobserved, hid⟩ := hinv.attempted first hfirst
    obtain ⟨other, hother, hotherObserved, hotherId⟩ := hinv.attempted second hsecond
    rw [← hid, ← hotherId, ← hobserved, ← hotherObserved]
    exact hids message hmessage other hother
  refine ⟨hids, hattempts, ?_⟩
  intro attempt hattempt hrefused
  obtain ⟨earlier, hearlier, hinserted, hcandidate, hid⟩ := hinv.refused attempt hattempt hrefused
  exact ⟨earlier, hearlier, hinserted, (hattempts earlier hearlier attempt hattempt).mp hid,
    hcandidate, hid⟩

/-! ## What the steps keep -/

/-- New messages keep the invariant when they are placed, and when the only request among them has
coordinates that no earlier one has. -/
theorem SamplingInv.extend (hinv : SamplingInv sha256 state) (hgrown : Grown state next)
    (horigins : ∀ process listener, next.listeners process = some listener →
      ∃ addr, listener.proxy.originPrefix = "http/" ++ addr)
    {new : List (Observed × Kafka.DiscoveryMsg)}
    (hmessages : next.topic = state.topic ++ new)
    (hplaced : ∀ message ∈ new, Placed next message.2 message.1)
    (hone : ∀ number msg other otherMsg, (.request number, msg) ∈ new →
      (.request other, otherMsg) ∈ new → number = other ∧ msg = otherMsg)
    (hfresh : ∀ number msg other otherMsg, (.request number, msg) ∈ new →
      (.request other, otherMsg) ∈ state.topic →
        number ≠ other ∧ ¬ (msg.source = otherMsg.source ∧
          msg.cursor.offset = otherMsg.cursor.offset))
    (hstore : next.store = state.store) (hattempts : next.attempts = state.attempts) :
    SamplingInv sha256 next where
  origins := horigins
  placed := by
    intro message hmessage
    rw [hmessages, List.mem_append] at hmessage
    cases hmessage with
    | inl hold => exact (hinv.placed message hold).mono hgrown
    | inr hnew => exact hplaced message hnew
  requests := by
    intro number msg other otherMsg hfirst hsecond
    rw [hmessages, List.mem_append] at hfirst hsecond
    cases hfirst with
    | inl hfirst =>
        cases hsecond with
        | inl hsecond => exact hinv.requests number msg other otherMsg hfirst hsecond
        | inr hsecond =>
            obtain ⟨hne, hcoordinates⟩ := hfresh other otherMsg number msg hsecond hfirst
            exact iff_of_false hne.symm fun heq ↦ hcoordinates ⟨heq.1.symm, heq.2.symm⟩
    | inr hfirst =>
        cases hsecond with
        | inl hsecond =>
            obtain ⟨hne, hcoordinates⟩ := hfresh number msg other otherMsg hfirst hsecond
            exact iff_of_false hne hcoordinates
        | inr hsecond =>
            obtain ⟨hnumber, hmsg⟩ := hone number msg other otherMsg hfirst hsecond
            exact iff_of_true hnumber ⟨by rw [hmsg], by rw [hmsg]⟩
  attempted := by
    intro attempt hattempt
    rw [hattempts] at hattempt
    obtain ⟨message, hmessage, hid⟩ := hinv.attempted attempt hattempt
    refine ⟨message, ?_, hid⟩
    rw [hmessages]
    exact List.mem_append_left _ hmessage
  stored := by
    rw [hstore, hattempts]
    exact hinv.stored
  refused := by
    rw [hattempts]
    exact hinv.refused

/-- A process with an address of its own may serve next to the others. -/
theorem SamplingInv.origins_update (hinv : SamplingInv sha256 state) {process : ℕ}
    {proxy : Http.ProxyState} {offset : ℕ}
    (horigin : ∃ addr, proxy.originPrefix = "http/" ++ addr) :
    ∀ other listener,
      Function.update state.listeners process (some ⟨proxy, offset⟩) other = some listener →
        ∃ addr, listener.proxy.originPrefix = "http/" ++ addr := by
  intro other listener hlistener
  by_cases hother : other = process
  · subst hother
    rw [Function.update_self] at hlistener
    cases hlistener
    exact horigin
  · rw [Function.update_of_ne hother] at hlistener
    exact hinv.origins other listener hlistener

theorem samplingInv_start {process : ℕ} {proxy : Http.ProxyState}
    (hinv : SamplingInv sha256 state) (hnone : state.listeners process = none)
    (horigin : ∃ addr, proxy.originPrefix = "http/" ++ addr) :
    SamplingInv sha256
      { state with listeners := Function.update state.listeners process (some ⟨proxy, 0⟩) } := by
  refine hinv.extend ⟨le_rfl, fun other listener hlistener ↦ ?_⟩ (hinv.origins_update horigin)
    (List.append_nil state.topic).symm nofun nofun nofun rfl rfl
  have hne : other ≠ process := by
    rintro rfl
    exact absurd (hnone.symm.trans hlistener) nofun
  exact ⟨listener, (Function.update_of_ne hne _ _).trans hlistener, rfl, le_rfl⟩

/-- What a relay enqueues for a record carries the record's coordinates. -/
theorem relayEvidence_spec {cfg : RelayCfg} {env : BatchEnv} {settle : SettleState}
    {tp : TopicPartition} {raw : RawRecord} {msg : Kafka.DiscoveryMsg}
    (hmsg : msg ∈ relayEvidence cfg env settle tp raw) :
    msg.source = tp.1 ∧ msg.cursor = raw.cursor tp := by
  unfold relayEvidence at hmsg
  split at hmsg
  · cases hmsg
  · split at hmsg
    · split_ifs at hmsg
      · rw [List.mem_singleton.mp hmsg]
        exact ⟨rfl, rfl⟩
      · cases hmsg
    · cases hmsg

theorem samplingInv_relay {cfg : RelayCfg} {env : BatchEnv} {settle : SettleState}
    {tp : TopicPartition} {raw : RawRecord} (hinv : SamplingInv sha256 state)
    (hpartition : tp.2 < 2 ^ 31) (hoffset : raw.offset < 2 ^ 63) :
    SamplingInv sha256 { state with
      topic := state.topic ++ (relayEvidence cfg env settle tp raw).map
        (.record tp raw.offset, ·) } := by
  have hnew : ∀ message ∈
      (relayEvidence cfg env settle tp raw).map (Observed.record tp raw.offset, ·),
      message.1 = .record tp raw.offset ∧ message.2.source = tp.1 ∧
        message.2.cursor = raw.cursor tp := by
    intro message hmessage
    obtain ⟨msg, hmsg, rfl⟩ := List.mem_map.mp hmessage
    exact ⟨rfl, relayEvidence_spec hmsg⟩
  refine hinv.extend ⟨le_rfl, fun process listener hlistener ↦ ⟨listener, hlistener, rfl, le_rfl⟩⟩
    hinv.origins rfl ?_ ?_ ?_ rfl rfl
  · intro message hmessage
    obtain ⟨hobserved, hsource, hcursor⟩ := hnew message hmessage
    rw [hobserved]
    exact ⟨hsource, hcursor, hpartition, hoffset⟩
  · intro number msg other otherMsg hmessage _
    cases (hnew _ hmessage).1
  · intro number msg other otherMsg hmessage _
    cases (hnew _ hmessage).1

theorem grown_ingest {process offset : ℕ} {listener : Listener}
    (hlistener : state.listeners process = some listener) (hle : listener.offset ≤ offset)
    {topic : List (Observed × Kafka.DiscoveryMsg)} :
    Grown state { state with
      listeners := Function.update state.listeners process (some ⟨listener.proxy, offset⟩)
      requests := state.requests + 1
      topic := topic } := by
  refine ⟨Nat.le_succ _, fun other held hheld ↦ ?_⟩
  by_cases hother : other = process
  · subst hother
    cases hlistener.symm.trans hheld
    exact ⟨_, Function.update_self .., rfl, hle⟩
  · exact ⟨held, (Function.update_of_ne hother _ _).trans hheld, rfl, le_rfl⟩

/-- A message that lands takes a counter value that no message of its source has taken. -/
theorem samplingInv_ingest {process : ℕ} {listener : Listener} {env : Http.RequestEnv}
    {request : Http.Request} {landed : Bool} (hinv : SamplingInv sha256 state)
    (hlistener : state.listeners process = some listener)
    (hfresh : landed = true ∧ Http.enqueues listener.proxy request = true →
      listener.offset < 2 ^ 64 ∧ ∀ other otherListener, other ≠ process →
        state.listeners other = some otherListener →
          otherListener.proxy.originPrefix = listener.proxy.originPrefix →
            otherListener.offset = 0) :
    let handled := Http.ingestHandler listener.proxy env listener.offset request
    SamplingInv sha256 { state with
      listeners := Function.update state.listeners process (some ⟨listener.proxy, handled.offset⟩)
      requests := state.requests + 1
      topic := state.topic ++ (if landed then handled.enqueued else none).toList.map
        (.request state.requests, ·) } := by
  intro handled
  have hnew : ∀ message ∈ (if landed then handled.enqueued else none).toList.map
      (Observed.request state.requests, ·),
      ∃ msg, landed = true ∧ handled.enqueued = some msg ∧
        message = (.request state.requests, msg) := by
    intro message hmessage
    obtain ⟨msg, hmsg, rfl⟩ := List.mem_map.mp hmessage
    cases landed with
    | true => exact ⟨msg, rfl, Option.mem_toList.mp hmsg, rfl⟩
    | false => cases hmsg
  refine hinv.extend (grown_ingest hlistener (Http.le_ingestHandler_offset _ _ _ _))
    (hinv.origins_update (hinv.origins process listener hlistener)) rfl ?_ ?_ ?_ rfl rfl
  · intro message hmessage
    obtain ⟨msg, hlanded, hmsg, rfl⟩ := hnew message hmessage
    obtain ⟨henqueues, hsource, hcursor, hoffset⟩ := Http.ingestHandler_enqueued_eq_some hmsg
    have hcounter := (hfresh ⟨hlanded, henqueues⟩).1
    refine ⟨Nat.lt_succ_self _, congrArg SourceCursor.topic hcursor,
      congrArg SourceCursor.partition hcursor, ?_, process, _, Function.update_self ..,
      hsource.symm, ?_⟩
    · rw [hcursor]
      exact hcounter
    · rw [hcursor, hoffset]
      exact Nat.lt_succ_self _
  · intro number msg other otherMsg hfirst hsecond
    obtain ⟨found, -, hfound, hfirst⟩ := hnew _ hfirst
    obtain ⟨otherFound, -, hotherFound, hsecond⟩ := hnew _ hsecond
    cases hfirst
    cases hsecond
    cases hfound.symm.trans hotherFound
    exact ⟨rfl, rfl⟩
  · intro number msg other otherMsg hfirst hold
    obtain ⟨found, hlanded, hfound, hfirst⟩ := hnew _ hfirst
    cases hfirst
    obtain ⟨henqueues, hsource, hcursor, -⟩ := Http.ingestHandler_enqueued_eq_some hfound
    obtain ⟨hbefore, -, -, -, held, otherListener, hheld, horigin, hlt⟩ := hinv.placed _ hold
    refine ⟨hbefore.ne', ?_⟩
    rintro ⟨hsame, hoffset⟩
    rw [hcursor] at hoffset
    by_cases hprocess : held = process
    · -- its own earlier messages are below the counter
      subst hprocess
      cases hlistener.symm.trans hheld
      exact hlt.ne hoffset.symm
    · -- another lifetime of the address has enqueued nothing
      have hzero := (hfresh ⟨hlanded, henqueues⟩).2 held otherListener hprocess hheld
        ((horigin.trans hsame.symm).trans hsource)
      rw [hzero] at hlt
      exact Nat.not_lt_zero _ hlt

theorem mem_members_of_live {keys : SampleKeys} {nowMs : ℕ} {sampleId : String}
    (hmem : sampleId ∈ (keys.live nowMs).index.members) : sampleId ∈ keys.index.members := by
  unfold SampleKeys.live at hmem
  split_ifs at hmem
  · exact hmem
  · cases hmem

/-- An id in the store after a put was just inserted, or it was there before. -/
theorem mem_members_putScript {keys : SampleKeys} {opts : SampleStoreOpts} {nowMs : ℕ}
    {sampleId other text : String}
    (hmem : other ∈ (keys.putScript opts nowMs sampleId text).2.index.members) :
    (other = sampleId ∧ (keys.putScript opts nowMs sampleId text).1 = true) ∨
      other ∈ keys.index.members := by
  obtain ⟨entry, hentry, rfl⟩ := List.mem_map.mp hmem
  obtain ⟨rfl, hnew⟩ | hold := SampleKeys.mem_putScript hentry
  · exact .inl ⟨rfl, decide_eq_true hnew⟩
  · exact .inr (mem_members_of_live (List.mem_map_of_mem hold))

theorem samplingInv_capture {detectors : Dlp.Detectors} {json : DocumentJson}
    {capture : SampleCaptureCfg} {sampleJson : SampleRecord SampleBody → String}
    {opts : SampleStoreOpts}
    {observed : Observed} {msg : Kafka.DiscoveryMsg} {nowMs : ℕ} {capturedAtMs : ℤ}
    {candidateId : CandidateId} (hinv : SamplingInv sha256 state)
    (hmessage : (observed, msg) ∈ state.topic) :
    SamplingInv sha256 (captureSample sha256 detectors json capture sampleJson opts state
      observed msg nowMs capturedAtMs candidateId) := by
  unfold captureSample
  split
  · exact hinv
  · rename_i sample hsample
    obtain ⟨hid, hcandidate⟩ := buildSample_eq_some hsample
    refine ⟨hinv.origins, fun message hmem ↦ (hinv.placed message hmem).mono ⟨le_rfl, fun process
      listener hlistener ↦ ⟨listener, hlistener, rfl, le_rfl⟩⟩, hinv.requests, ?_, ?_, ?_⟩
    · intro attempt hattempt
      rw [List.mem_append, List.mem_singleton] at hattempt
      cases hattempt with
      | inl hold => exact hinv.attempted attempt hold
      | inr hnew =>
          rw [hnew]
          exact ⟨(observed, msg), hmessage, rfl, hid.symm⟩
    · intro other otherId hmem
      simp only at hmem ⊢
      by_cases hother : other = sample.candidateId
      · subst hother
        rw [Function.update_self] at hmem
        obtain ⟨rfl, hinserted⟩ | hold := mem_members_putScript hmem
        · exact ⟨_, List.mem_append_right _ (List.mem_singleton_self _), hinserted,
            hcandidate.symm, rfl⟩
        · obtain ⟨attempt, hattempt, hstored⟩ := hinv.stored _ _ hold
          exact ⟨attempt, List.mem_append_left _ hattempt, hstored⟩
      · rw [Function.update_of_ne hother] at hmem
        obtain ⟨attempt, hattempt, hstored⟩ := hinv.stored _ _ hmem
        exact ⟨attempt, List.mem_append_left _ hattempt, hstored⟩
    · intro attempt hattempt hrefused
      rw [List.mem_append, List.mem_singleton] at hattempt
      cases hattempt with
      | inl hold =>
          obtain ⟨earlier, hearlier, hstored⟩ := hinv.refused attempt hold hrefused
          exact ⟨earlier, List.mem_append_left _ hearlier, hstored⟩
      | inr hnew =>
          subst hnew
          have hmem : sample.sampleId ∈
              ((state.store sample.candidateId).live nowMs).index.members := by
            simpa [SampleKeys.putScript] using hrefused
          obtain ⟨earlier, hearlier, hinserted, hsame, hstored⟩ :=
            hinv.stored _ _ (mem_members_of_live hmem)
          exact ⟨earlier, List.mem_append_left _ hearlier, hinserted, hsame.trans hcandidate,
            hstored⟩

end

/-! ## Runs -/

section

variable (sha256 : Bytes → Digest) (detectors : Dlp.Detectors) (json : DocumentJson)
  (capture : SampleCaptureCfg) (sampleJson : SampleRecord SampleBody → String)
  (opts : SampleStoreOpts)

theorem samplingInv_init :
    SamplingInv sha256
      (samplingMachine sha256 detectors json capture sampleJson opts).init where
  origins := nofun
  placed := nofun
  requests := nofun
  attempted := nofun
  stored := nofun
  refused := nofun

theorem samplingInv_step {state next : SamplingState} {label : SamplingLabel}
    (hinv : SamplingInv sha256 state) (hallowed : OneLifetime state label)
    (hstep : samplingStep sha256 detectors json capture sampleJson opts state label =
      some next) : SamplingInv sha256 next := by
  cases label with
  | start process cfg classify discovery =>
      simp only [samplingStep] at hstep
      split at hstep
      · cases hstep
      · rename_i hnone
        obtain ⟨proxy, hproxy, rfl⟩ := Option.map_eq_some_iff.mp hstep
        exact samplingInv_start hinv hnone ⟨_, Http.originPrefix_of_run hproxy⟩
  | ingest process env request landed =>
      obtain ⟨listener, hlistener, rfl⟩ := Option.map_eq_some_iff.mp hstep
      exact samplingInv_ingest hinv hlistener (hallowed listener hlistener)
  | relay cfg env settle tp raw =>
      simp only [samplingStep] at hstep
      split_ifs at hstep with hcoordinates
      cases hstep
      exact samplingInv_relay hinv hcoordinates.1 hcoordinates.2
  | consume index nowMs capturedAtMs candidateId =>
      obtain ⟨message, hmessage, rfl⟩ := Option.map_eq_some_iff.mp hstep
      exact samplingInv_capture hinv (List.mem_of_getElem? hmessage)

/-- In every run in which no address enqueues in two lifetimes of its listener, samples are faithful
in every state. -/
theorem samples_faithful {state : SamplingState}
    (reached : (samplingMachine sha256 detectors json capture sampleJson opts).Reachable
      OneLifetime state)
    (hfree : CollisionFree sha256 state.topic) : Faithful sha256 state := by
  have hinv : SamplingInv sha256 state := by
    apply reached.invariant
    · exact samplingInv_init sha256 detectors json capture sampleJson opts
    · intro before label after hbefore hallowed hstep
      exact samplingInv_step sha256 detectors json capture sampleJson opts hbefore hallowed hstep
  exact hinv.faithful hfree

end

/-! ## A restart that loses a sample -/

/-- The JSON texts `0` and `1`. -/
def digitJson : DocumentJson where
  fromSlice bytes :=
    if bytes = utf8 "0" then some ⟨.number "0", .number "0"⟩
    else if bytes = utf8 "1" then some ⟨.number "1", .number "1"⟩
    else none
  toVec document :=
    match document.value with
    | .number text => utf8 text
    | _ => []

def quietDetectors : Dlp.Detectors where
  folding := .ascii
  secretPatterns _ := false
  email _ := false
  shannonAtLeast _ _ := false

def localProxyCfg : Http.HttpProxyCfg where
  listenAddr := "127.0.0.1:8088"
  upstreamAllowlist := [⟨"http", some "upstream", some 80, "/"⟩]
  route := ⟨"http", some "upstream", some 80, "/"⟩
  maxBodyBytes := 1024
  maxHeaderBytes := 8192
  maxHeaderCount := 100
  ingestToken := none

def localCaptureCfg : SampleCaptureCfg where
  enabled := true
  captureSources := ["http/127.0.0.1:8088"]
  maxInputBytes := 1024
  maxSampleBytes := 1024
  dlp := ⟨100, 32, by decide⟩

def zeroDigest : Digest := Vector.replicate 32 0

/-- A matcher that has not seen the shape of any body. -/
def unseen : String → Bytes → Classification :=
  fun _ _ ↦ ⟨.provisional (.fromDigest zeroDigest), none, none, none, 0, nofun⟩

def localEnv : Http.RequestEnv where
  originId := Http.firstUuid
  idempotencyKey := Http.secondUuid
  upstream := .failed

/-- The last bytes of a text, which are enough to tell short runs apart. -/
def tailDigest (bytes : Bytes) : Digest := Vector.ofFn fun index ↦ bytes.reverse.getD index 0

/-- A machine whose digests tell the messages of one process apart. -/
def tailMachine : Machine SamplingState SamplingLabel :=
  samplingMachine tailDigest quietDetectors digitJson localCaptureCfg (fun _ ↦ "{}")
    ⟨10, 60, 120⟩

/-- What a process enqueues for a body under an offset of its counter. -/
def localMsg (offset : ℕ) (body : Bytes) : Kafka.DiscoveryMsg :=
  ⟨(DigestId.fromDigest zeroDigest : CandidateId).asStr, body, "http/127.0.0.1:8088",
    ⟨"http", 0, offset⟩⟩

/-- The only process may enqueue. -/
theorem oneLifetime_of_only {state : SamplingState} {only : Listener}
    (honly : state.listeners = Function.update (fun _ ↦ none) 0 (some only))
    (hoffset : only.offset < 2 ^ 64) (env : Http.RequestEnv) (request : Http.Request) :
    OneLifetime state (.ingest 0 env request true) := by
  intro listener hlistener _
  rw [honly, Function.update_self] at hlistener
  cases hlistener
  refine ⟨hoffset, fun other otherListener hother hheld ↦ ?_⟩
  rw [honly, Function.update_of_ne hother] at hheld
  cases hheld

/-- Two bodies for one process, the first of them read twice. -/
theorem samples_faithful_redelivered : ∃ state, tailMachine.Reachable OneLifetime state ∧
    state.attempts.map (fun attempt ↦ (attempt.observed, attempt.inserted)) =
      [(.request 0, true), (.request 0, false), (.request 1, true)] ∧
    Faithful tailDigest state := by
  obtain ⟨started, once, twice, first, again, last, hstart, honce, htwice, hfirst, hagain, hlast,
      hstarted, honly, htopic, hattempts⟩ : ∃ started once twice first again last,
      tailMachine.step tailMachine.init (.start 0 localProxyCfg unseen true) = some started ∧
      tailMachine.step started (.ingest 0 localEnv ⟨.empty, utf8 "0"⟩ true) = some once ∧
      tailMachine.step once (.ingest 0 localEnv ⟨.empty, utf8 "1"⟩ true) = some twice ∧
      tailMachine.step twice (.consume 0 1 0 (.fromDigest zeroDigest)) = some first ∧
      tailMachine.step first (.consume 0 2 0 (.fromDigest zeroDigest)) = some again ∧
      tailMachine.step again (.consume 1 3 0 (.fromDigest zeroDigest)) = some last ∧
      (∃ proxy, started.listeners = Function.update (fun _ ↦ none) 0 (some ⟨proxy, 0⟩)) ∧
      (∃ proxy, once.listeners = Function.update (Function.update (fun _ ↦ none) 0
        (some ⟨proxy, 0⟩)) 0 (some ⟨proxy, 1⟩)) ∧
      last.topic = [(.request 0, localMsg 0 (utf8 "0")), (.request 1, localMsg 1 (utf8 "1"))] ∧
      last.attempts.map (fun attempt ↦ (attempt.observed, attempt.inserted)) =
        [(.request 0, true), (.request 0, false), (.request 1, true)] :=
    ⟨_, _, _, _, _, _, rfl, rfl, rfl, rfl, rfl, rfl, ⟨_, rfl⟩, ⟨_, rfl⟩, rfl, rfl⟩
  obtain ⟨proxy, hstarted⟩ := hstarted
  obtain ⟨sameProxy, honly⟩ := honly
  rw [Function.update_idem] at honly
  have hserved : tailMachine.Reachable OneLifetime twice :=
    ((Machine.ReachableFrom.refl.step (by trivial) hstart).step
      (oneLifetime_of_only hstarted (show 0 < 2 ^ 64 by decide) _ _) honce).step
        (oneLifetime_of_only honly (show 1 < 2 ^ 64 by decide) _ _) htwice
  have hreached : tailMachine.Reachable OneLifetime last :=
    ((hserved.step (by trivial) hfirst).step (by trivial) hagain).step (by trivial) hlast
  refine ⟨last, hreached, hattempts, samples_faithful _ _ _ _ _ _ hreached ?_⟩
  have hne : halfDigest tailDigest (preimageOf tailDigest (localMsg 0 (utf8 "0"))) ≠
      halfDigest tailDigest (preimageOf tailDigest (localMsg 1 (utf8 "1"))) := by
    decide +kernel
  rw [htopic]
  constructor
  · simp [localMsg]
  · simp [hne, hne.symm]

/-- One body before a restart and another one after it, and the samples of both. -/
def restartTrace : List SamplingLabel :=
  [.start 0 localProxyCfg unseen true, .ingest 0 localEnv ⟨.empty, utf8 "0"⟩ true,
    .start 1 localProxyCfg unseen true, .ingest 1 localEnv ⟨.empty, utf8 "1"⟩ true,
    .consume 0 1 0 (.fromDigest zeroDigest), .consume 1 2 0 (.fromDigest zeroDigest)]

def localMachine : Machine SamplingState SamplingLabel :=
  samplingMachine (fun _ ↦ zeroDigest) quietDetectors digitJson localCaptureCfg (fun _ ↦ "{}")
    ⟨10, 60, 120⟩

theorem restart_drops_sample : ∃ state, localMachine.Reachable Machine.always state ∧
    CollisionFree (fun _ ↦ zeroDigest) state.topic ∧
    state.attempts.map (fun attempt ↦ (attempt.observed, attempt.inserted)) =
      [(.request 0, true), (.request 1, false)] ∧ ¬ Faithful (fun _ ↦ zeroDigest) state := by
  obtain ⟨state, hreplay, htopic, hattempts⟩ : ∃ state,
      localMachine.replay Machine.always localMachine.init restartTrace = some state ∧
        state.topic = [(.request 0, localMsg 0 (utf8 "0")), (.request 1, localMsg 0 (utf8 "1"))] ∧
        state.attempts.map (fun attempt ↦ (attempt.observed, attempt.inserted)) =
          [(.request 0, true), (.request 1, false)] := ⟨_, rfl, rfl, rfl⟩
  refine ⟨state, Machine.reachableFrom_replay restartTrace hreplay, ?_, hattempts, ?_⟩
  · have hsame : ∀ message ∈ state.topic, ∃ body, message.2 = localMsg 0 body := by
      rw [htopic]
      simp
    constructor
    · intro first hfirst second hsecond _
      obtain ⟨body, hbody⟩ := hsame first hfirst
      obtain ⟨other, hother⟩ := hsame second hsecond
      rw [hbody, hother]
      rfl
    · intro first hfirst second hsecond _
      obtain ⟨body, hbody⟩ := hsame first hfirst
      obtain ⟨other, hother⟩ := hsame second hsecond
      rw [hbody, hother]
      rfl
  · intro hfaithful
    have hids := hfaithful.ids (.request 0, localMsg 0 (utf8 "0")) (by rw [htopic]; simp)
      (.request 1, localMsg 0 (utf8 "1")) (by rw [htopic]; simp)
    cases hids.mp rfl

end Deblob.Cold
