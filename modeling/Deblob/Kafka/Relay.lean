import Deblob.Kafka.Headers
import Deblob.Kafka.Settle
import Deblob.Lib.Except
import Mathlib.Algebra.GroupWithZero.Nat
import Mathlib.Data.List.Induction

/-!
# One relay transaction

`runTransactionBody` turns one source record into the messages enqueued for it, and `processBatch`
runs the begin, enqueue, await, send-offsets, commit cycle for a whole batch. What the matcher, the
producer and the broker answer is a `BatchEnv`. The live-stream tap and the metrics are left out:
nothing the relay decides depends on them.
-/

namespace Deblob.Kafka

open Core

abbrev TopicPartition := String × ℕ

def relayProduceMargin : ℕ := 16 * 1024

inductive FaultPoint where
  | afterDiscoveryProduce
  | afterProduceBeforeCommit
deriving DecidableEq

structure RelayCfg where
  taggedTopic : String
  discoveryTopic : String
  quarantineTopic : String
  maxBatchRecords : ℕ
  maxBatchBytes : ℕ
  maxMessageBytes : ℕ
  fault : Option FaultPoint := none
  settle : SettleCfg := {}

inductive RelayError where
  | kafka
  | serialize
  | noGroupMetadata

/-- One message handed to the producer. -/
structure Produced where
  topic : String
  partition : Option ℕ
  key : Option Bytes
  payload : Option Bytes
  headers : Headers

/-- Which of a record's messages this is. -/
inductive Lane where
  | tagged
  | quarantine
  | discovery
deriving DecidableEq

/-- A produced message together with the source record it was produced for. -/
structure Output where
  origin : SourceCursor
  lane : Lane
  message : Produced

structure DiscoveryMsg where
  candId : String
  payload : Bytes
  source : String
  cursor : SourceCursor

structure PendingRecord where
  cursor : SourceCursor
  key : Option Bytes
  payload : Option Bytes
  headers : Headers

def PendingRecord.topicPartition (record : PendingRecord) : TopicPartition :=
  (record.cursor.topic, record.cursor.partition)

/-- A record as the raw topic holds it. -/
structure RawRecord where
  offset : ℕ
  key : Option Bytes
  payload : Option Bytes
  headers : Option Headers

def RawRecord.cursor (tp : TopicPartition) (raw : RawRecord) : SourceCursor :=
  ⟨tp.1, tp.2, raw.offset⟩

/-- What the relay keeps of a received record; inbound reserved headers are stripped. -/
def RawRecord.received (tp : TopicPartition) (raw : RawRecord) : PendingRecord :=
  ⟨raw.cursor tp, raw.key, raw.payload, stripReserved raw.headers⟩

def PendingRecord.bytes (record : PendingRecord) : ℕ :=
  (record.payload.map List.length).getD 0 + (record.key.map List.length).getD 0

/-- Whether the accumulation loop asks for another record: neither batch bound is reached. -/
def accepts (cfg : RelayCfg) (batch : List PendingRecord) : Bool :=
  decide (batch.length < max 1 cfg.maxBatchRecords) &&
    decide ((batch.map PendingRecord.bytes).sum < max 1 cfg.maxBatchBytes)

/-- The report of one delivery future. -/
inductive Delivery where
  | ok
  | failed
  | canceled

/-- A failed commit call leaves open whether the broker applied the transaction. -/
inductive CommitReply where
  | ok
  | failed (applied : Bool)
deriving DecidableEq

def CommitReply.applied : CommitReply → Bool
  | ok => true
  | failed applied => applied

/-- Everything outside the relay that one batch asks for an answer. -/
structure BatchEnv where
  begin : Bool := true
  classify : SourceCursor → Bytes → Classification
  discoveryJson : DiscoveryMsg → Option Bytes
  enqueue : Produced → Bool := fun _ ↦ true
  delivery : Produced → Delivery := fun _ ↦ .ok
  groupMetadata : Bool := true
  sendOffsets : Bool := true
  abort : Bool := true
  commit : CommitReply := .ok

inductive TransactionBody where
  | produced
  | fault

inductive ProcessOutcome where
  | committed
  | aborted
  | faultInjected

/-- Enqueue one message; an immediate enqueue error fails the record. -/
def produce (env : BatchEnv) (output : Output) : Except RelayError Output :=
  if env.enqueue output.message then .ok output else .error .kafka

/-- The discovery evidence of a provisional record. Evidence that would not fit is skipped. -/
def produceDiscovery (cfg : RelayCfg) (env : BatchEnv) (cursor : SourceCursor) (payload : Bytes)
    (schemaRef : SchemaRef) : Except RelayError (List Output) :=
  match schemaRef with
  | .provisional candId =>
    match env.discoveryJson ⟨candId.asStr, payload, cursor.topic, cursor⟩ with
    | none => .error .serialize
    | some discoveryBytes =>
      if discoveryBytes.length > cfg.maxMessageBytes - relayProduceMargin then .ok []
      else do
        let delivery ← produce env ⟨cursor, .discovery, cfg.discoveryTopic, none,
          some (utf8 candId.asStr), some discoveryBytes, []⟩
        pure [delivery]
  | _ => .ok []

/-- The tagged or quarantined output of a classified record. -/
def classifiedOutput (cfg : RelayCfg) (record : PendingRecord) (payload : Bytes)
    (classification : Classification) : Output :=
  let headers := withTag record.headers classification.schemaRef record.cursor
  match hmalformed : classification.schemaRef with
  | .malformed =>
    let reason := classification.quarantine.get (classification.malformed_reason hmalformed)
    ⟨record.cursor, .quarantine, cfg.quarantineTopic, some record.cursor.partition, record.key,
      some payload, withQuarantineReason headers reason⟩
  | _ =>
    ⟨record.cursor, .tagged, cfg.taggedTopic, some record.cursor.partition, record.key,
      some payload, headers⟩

/-- Enqueue what a classified record produces: discovery evidence first, then its own output. -/
def produceClassified (cfg : RelayCfg) (env : BatchEnv) (record : PendingRecord) (payload : Bytes)
    (classification : Classification) : Except RelayError (TransactionBody × List Output) := do
  let discovery ← produceDiscovery cfg env record.cursor payload classification.schemaRef
  if !discovery.isEmpty && cfg.fault = some .afterDiscoveryProduce then
    return (.fault, discovery)
  let delivery ← produce env (classifiedOutput cfg record payload classification)
  return (.produced, discovery ++ [delivery])

/-- Produce the messages of one record inside the open transaction. -/
def runTransactionBody (cfg : RelayCfg) (env : BatchEnv) (record : PendingRecord)
    (settle : SettleState) : Except RelayError (TransactionBody × List Output) × SettleState :=
  let cursor := record.cursor
  match record.payload with
  | none =>
    -- a tombstone is passed through unparsed
    let body := do
      let delivery ← produce env ⟨cursor, .tagged, cfg.taggedTopic, some cursor.partition,
        record.key, none, withTag record.headers .tombstone cursor⟩
      pure (.produced, [delivery])
    (body, settle)
  | some payload =>
    if payload.length > cfg.maxMessageBytes - relayProduceMargin then
      -- too large to produce: a payload-free marker goes to quarantine instead
      let body := do
        let delivery ← produce env ⟨cursor, .quarantine, cfg.quarantineTopic,
          some cursor.partition, record.key, none,
          withQuarantineReason (withTag record.headers .malformed cursor) .sizeExceeded⟩
        pure (.produced, [delivery])
      (body, settle)
    else
      match settle.before cursor.topic with
      | (.fastPath known, settle) =>
        let body := do
          let delivery ← produce env ⟨cursor, .tagged, cfg.taggedTopic, some cursor.partition,
            record.key, some payload, withTag record.headers (.known known) cursor⟩
          pure (.produced, [delivery])
        (body, settle)
      | (.classify driftCheck, settle) =>
        let classification := env.classify cursor payload
        let known := match classification.schemaRef with
          | .known id => some id
          | _ => none
        (produceClassified cfg env record payload classification,
          settle.after cursor.topic known driftCheck)

/-- Enqueue a whole batch in accumulation order, stopping at the first failure. -/
def enqueueBatch (cfg : RelayCfg) (env : BatchEnv) :
    List PendingRecord → SettleState → List Output →
      Except RelayError (TransactionBody × List Output) × SettleState
  | [], settle, deliveries => (.ok (.produced, deliveries), settle)
  | record :: batch, settle, deliveries =>
    match runTransactionBody cfg env record settle with
    | (.ok (.produced, outputs), settle) =>
      enqueueBatch cfg env batch settle (deliveries ++ outputs)
    | (.ok (.fault, outputs), settle) => (.ok (.fault, deliveries ++ outputs), settle)
    | (.error err, settle) => (.error err, settle)

/-- The highest offset of each partition the batch touches. -/
def maxOffsets (batch : List PendingRecord) : TopicPartition → Option ℕ :=
  batch.foldl (fun offsets record ↦ Function.update offsets record.topicPartition
    (some (((offsets record.topicPartition).map (max · record.cursor.offset)).getD
      record.cursor.offset))) fun _ ↦ none

/-- A transaction the broker applied: its outputs and the next offset of each partition. -/
structure Transaction where
  outputs : List Output
  offsets : TopicPartition → Option ℕ

structure BatchResult where
  outcome : Except RelayError ProcessOutcome
  applied : Option Transaction
  settle : SettleState

/-- Abort the open transaction; nothing of it becomes visible. -/
def abortBatch (env : BatchEnv) (settle : SettleState) : BatchResult :=
  ⟨if env.abort then .ok .aborted else .error .kafka, none, settle⟩

/-- Await every delivery of the batch; `false` as soon as one failed or was canceled. -/
def awaitDeliveries (env : BatchEnv) (deliveries : List Output) : Bool :=
  deliveries.all fun output ↦ match env.delivery output.message with
    | .ok => true
    | .failed | .canceled => false

/-- One begin, enqueue, await, send-offsets, commit cycle for a whole batch. -/
def processBatch (cfg : RelayCfg) (env : BatchEnv) (batch : List PendingRecord)
    (settle : SettleState) : BatchResult :=
  if !env.begin then ⟨.error .kafka, none, settle⟩
  else
    match enqueueBatch cfg env batch settle [] with
    | (.error _, settle) => abortBatch env settle
    | (.ok (.fault, _), settle) => ⟨.ok .faultInjected, none, settle⟩
    | (.ok (.produced, deliveries), settle) =>
      if !awaitDeliveries env deliveries then abortBatch env settle
      else if cfg.fault = some .afterProduceBeforeCommit then ⟨.ok .faultInjected, none, settle⟩
      else if !env.groupMetadata then ⟨.error .noGroupMetadata, none, settle⟩
      else if !env.sendOffsets then abortBatch env settle
      else
        let transaction : Transaction :=
          ⟨deliveries, fun tp ↦ (maxOffsets batch tp).map (· + 1)⟩
        match env.commit with
        | .ok => ⟨.ok .committed, some transaction, settle⟩
        | .failed applied => ⟨.error .kafka, if applied then some transaction else none, settle⟩

/-! ## What a produced record and an applied transaction contain -/

/-- Whether this is the tagged or quarantined output of the record at `cursor`. -/
def Output.isResultOf (cursor : SourceCursor) (output : Output) : Bool :=
  output.lane != .discovery && output.origin == cursor

theorem produce_ok {env : BatchEnv} {output delivery : Output}
    (hok : produce env output = .ok delivery) : delivery = output := by
  unfold produce at hok
  split at hok
  · cases hok
    rfl
  · cases hok

/-- The discovery message of a provisional record. -/
def discoveryOutput (cfg : RelayCfg) (cursor : SourceCursor) (candId : CandidateId)
    (discoveryBytes : Bytes) : Output :=
  ⟨cursor, .discovery, cfg.discoveryTopic, none, some (utf8 candId.asStr), some discoveryBytes, []⟩

/-- The one output a record gets besides its discovery evidence. -/
def resultOutput (cfg : RelayCfg) (env : BatchEnv) (record : PendingRecord) (settle : SettleState) :
    Output :=
  match record.payload with
  | none =>
    ⟨record.cursor, .tagged, cfg.taggedTopic, some record.cursor.partition, record.key, none,
      withTag record.headers .tombstone record.cursor⟩
  | some payload =>
    if payload.length > cfg.maxMessageBytes - relayProduceMargin then
      ⟨record.cursor, .quarantine, cfg.quarantineTopic, some record.cursor.partition, record.key,
        none, withQuarantineReason (withTag record.headers .malformed record.cursor) .sizeExceeded⟩
    else
      match (settle.before record.cursor.topic).1 with
      | .fastPath known =>
        ⟨record.cursor, .tagged, cfg.taggedTopic, some record.cursor.partition, record.key,
          some payload, withTag record.headers (.known known) record.cursor⟩
      | .classify _ => classifiedOutput cfg record payload (env.classify record.cursor payload)

/-- Discovery evidence is at most one message, whose value fits the producer. -/
theorem produceDiscovery_cases {cfg : RelayCfg} {env : BatchEnv} {cursor : SourceCursor}
    {payload : Bytes} {schemaRef : SchemaRef} {discovery : List Output}
    (hok : produceDiscovery cfg env cursor payload schemaRef = .ok discovery) :
    discovery = [] ∨ ∃ candId discoveryBytes,
      env.discoveryJson ⟨candId.asStr, payload, cursor.topic, cursor⟩ = some discoveryBytes ∧
        discoveryBytes.length ≤ cfg.maxMessageBytes - relayProduceMargin ∧
        discovery = [discoveryOutput cfg cursor candId discoveryBytes] := by
  unfold produceDiscovery at hok
  split at hok
  · rename_i candId
    split at hok
    · cases hok
    · rename_i discoveryBytes hjson
      split_ifs at hok with hlarge
      · cases hok
        exact .inl rfl
      · obtain ⟨delivery, hproduce, hpure⟩ := Lib.Except.bind_eq_ok.mp hok
        cases hpure
        rw [produce_ok hproduce]
        exact .inr ⟨candId, discoveryBytes, hjson, Nat.not_lt.mp hlarge, rfl⟩
  · cases hok
    exact .inl rfl

theorem classifiedOutput_origin (cfg : RelayCfg) (record : PendingRecord) (payload : Bytes)
    (classification : Classification) :
    (classifiedOutput cfg record payload classification).origin = record.cursor := by
  unfold classifiedOutput
  split <;> rfl

theorem classifiedOutput_lane (cfg : RelayCfg) (record : PendingRecord) (payload : Bytes)
    (classification : Classification) :
    (classifiedOutput cfg record payload classification).lane ≠ .discovery := by
  unfold classifiedOutput
  split <;> simp

/-- One output that is the result of the record at `cursor`, and nothing else but evidence. -/
theorem countP_isResultOf_append {origin : SourceCursor} (discovery : List Output)
    {delivery : Output}
    (hdiscovery : ∀ output ∈ discovery, output.origin = origin ∧ output.lane = .discovery)
    (horigin : delivery.origin = origin) (hlane : delivery.lane ≠ .discovery)
    (cursor : SourceCursor) :
    (discovery ++ [delivery]).countP (·.isResultOf cursor) = if origin = cursor then 1 else 0 := by
  have hnone : discovery.countP (·.isResultOf cursor) = 0 := by
    rw [List.countP_eq_zero]
    intro output hmem
    simp [Output.isResultOf, (hdiscovery output hmem).2]
  rw [List.countP_append, hnone]
  by_cases hcursor : origin = cursor <;> simp [Output.isResultOf, horigin, hlane, hcursor]

theorem resultOutput_origin (cfg : RelayCfg) (env : BatchEnv) (record : PendingRecord)
    (settle : SettleState) : (resultOutput cfg env record settle).origin = record.cursor := by
  unfold resultOutput
  split
  · rfl
  · split_ifs
    · rfl
    · split
      · rfl
      · exact classifiedOutput_origin ..

theorem resultOutput_lane (cfg : RelayCfg) (env : BatchEnv) (record : PendingRecord)
    (settle : SettleState) : (resultOutput cfg env record settle).lane ≠ .discovery := by
  unfold resultOutput
  split
  · simp
  · split_ifs
    · simp
    · split
      · simp
      · exact classifiedOutput_lane _ _ _ _

/-- What one record hands to the producer: its discovery evidence, if any, and then its result. An
injected fault stops between the two. -/
theorem runTransactionBody_cases {cfg : RelayCfg} {env : BatchEnv} {record : PendingRecord}
    {settle : SettleState} {outcome : TransactionBody} {outputs : List Output}
    (hok : (runTransactionBody cfg env record settle).1 = .ok (outcome, outputs)) :
    ∃ discovery : List Output,
      (discovery = [] ∨ ∃ candId discoveryBytes,
        discoveryBytes.length ≤ cfg.maxMessageBytes - relayProduceMargin ∧
          discovery = [discoveryOutput cfg record.cursor candId discoveryBytes]) ∧
      (outcome = .fault ∧ outputs = discovery ∨
        outcome = .produced ∧ outputs = discovery ++ [resultOutput cfg env record settle]) := by
  have hsingle {expected : Output} (hexpected : expected = resultOutput cfg env record settle)
      (hbody : (do
        let delivery ← produce env expected
        pure (TransactionBody.produced, [delivery])) = Except.ok (outcome, outputs)) :
      ∃ discovery : List Output,
        (discovery = [] ∨ ∃ candId discoveryBytes,
          discoveryBytes.length ≤ cfg.maxMessageBytes - relayProduceMargin ∧
            discovery = [discoveryOutput cfg record.cursor candId discoveryBytes]) ∧
        (outcome = .fault ∧ outputs = discovery ∨
          outcome = .produced ∧ outputs = discovery ++ [resultOutput cfg env record settle]) := by
    obtain ⟨delivery, hproduce, hpure⟩ := Lib.Except.bind_eq_ok.mp hbody
    cases hpure
    rw [produce_ok hproduce, hexpected]
    exact ⟨[], .inl rfl, .inr ⟨rfl, rfl⟩⟩
  simp only [runTransactionBody] at hok
  split at hok
  · rename_i hpayload
    exact hsingle (by simp only [resultOutput, hpayload]) hok
  · rename_i payload hpayload
    split at hok
    · rename_i hlarge
      exact hsingle (by simp only [resultOutput, hpayload, if_pos hlarge]) hok
    · rename_i hfits
      rcases hbefore : settle.before record.cursor.topic with ⟨decision, settle'⟩
      cases decision with
      | fastPath known =>
          simp only [hbefore] at hok
          exact hsingle (by simp only [resultOutput, hpayload, if_neg hfits, hbefore]) hok
      | classify driftCheck =>
          have hresult : resultOutput cfg env record settle =
              classifiedOutput cfg record payload (env.classify record.cursor payload) := by
            simp only [resultOutput, hpayload, if_neg hfits, hbefore]
          simp only [hbefore] at hok
          obtain ⟨discovery, hdiscovery, hrest⟩ := Lib.Except.bind_eq_ok.mp hok
          refine ⟨discovery, (produceDiscovery_cases hdiscovery).imp_right
            fun ⟨candId, discoveryBytes, _, hone⟩ ↦ ⟨candId, discoveryBytes, hone⟩, ?_⟩
          split at hrest
          · cases hrest
            exact .inl ⟨rfl, rfl⟩
          · obtain ⟨delivery, hproduce, hpure⟩ := Lib.Except.bind_eq_ok.mp hrest
            cases hpure
            rw [produce_ok hproduce, hresult]
            exact .inr ⟨rfl, rfl⟩

/-- A record that was produced has exactly one tagged-or-quarantine output. -/
theorem runTransactionBody_ok {cfg : RelayCfg} {env : BatchEnv} {record : PendingRecord}
    {settle : SettleState} {outputs : List Output}
    (hok : (runTransactionBody cfg env record settle).1 = .ok (.produced, outputs))
    (cursor : SourceCursor) :
    outputs.countP (·.isResultOf cursor) = if record.cursor = cursor then 1 else 0 := by
  obtain ⟨discovery, hdiscovery, ⟨hfault, -⟩ | ⟨-, rfl⟩⟩ := runTransactionBody_cases hok
  · cases hfault
  · refine countP_isResultOf_append discovery ?_ (resultOutput_origin ..)
      (resultOutput_lane _ _ _ _) cursor
    obtain rfl | ⟨candId, discoveryBytes, -, rfl⟩ := hdiscovery
    · simp
    · simp [discoveryOutput]

theorem enqueueBatch_ok {cfg : RelayCfg} {env : BatchEnv} {batch : List PendingRecord}
    {settle : SettleState} {before deliveries : List Output}
    (hok : (enqueueBatch cfg env batch settle before).1 = .ok (.produced, deliveries))
    (cursor : SourceCursor) :
    deliveries.countP (·.isResultOf cursor) =
      before.countP (·.isResultOf cursor) + (batch.map PendingRecord.cursor).count cursor := by
  induction batch generalizing settle before with
  | nil =>
      cases hok
      simp
  | cons record batch ih =>
      unfold enqueueBatch at hok
      split at hok
      · rename_i outputs settle' hbody
        have hone := runTransactionBody_ok (congrArg Prod.fst hbody) cursor
        rw [ih hok, List.countP_append, hone, List.map_cons, List.count_cons]
        simp only [beq_iff_eq]
        omega
      · cases hok
      · cases hok

/-- Each partition's entry is the highest offset the batch holds for it. -/
theorem maxOffsets_spec (batch : List PendingRecord) (tp : TopicPartition) :
    match maxOffsets batch tp with
    | none => ∀ record ∈ batch, record.topicPartition ≠ tp
    | some highest =>
      (∃ record ∈ batch, record.topicPartition = tp ∧ record.cursor.offset = highest) ∧
        ∀ record ∈ batch, record.topicPartition = tp → record.cursor.offset ≤ highest := by
  induction batch using List.reverseRec with
  | nil => simp [maxOffsets]
  | append_singleton batch record ih =>
      have hlast : maxOffsets (batch ++ [record]) = Function.update (maxOffsets batch)
          record.topicPartition (some (((maxOffsets batch record.topicPartition).map
            (max · record.cursor.offset)).getD record.cursor.offset)) := by
        simp [maxOffsets]
      rw [hlast]
      by_cases htp : record.topicPartition = tp
      · subst htp
        rw [Function.update_self]
        cases hbefore : maxOffsets batch record.topicPartition with
        | none =>
            simp only [hbefore] at ih
            grind
        | some highest =>
            simp only [hbefore] at ih
            obtain ⟨⟨held, hmem, hheld, hoffset⟩, hmax⟩ := ih
            grind
      · rw [Function.update_of_ne (Ne.symm htp)]
        cases hbefore : maxOffsets batch tp with
        | none =>
            simp only [hbefore] at ih ⊢
            grind
        | some highest =>
            simp only [hbefore] at ih ⊢
            grind

/-- An applied transaction holds one result for each record of the batch, and its offsets are one
past the highest of each partition. -/
theorem processBatch_applied {cfg : RelayCfg} {env : BatchEnv} {batch : List PendingRecord}
    {settle : SettleState} {transaction : Transaction}
    (happlied : (processBatch cfg env batch settle).applied = some transaction) :
    (∀ cursor, transaction.outputs.countP (·.isResultOf cursor) =
      (batch.map PendingRecord.cursor).count cursor) ∧
      transaction.offsets = fun tp ↦ (maxOffsets batch tp).map (· + 1) := by
  unfold processBatch at happlied
  split at happlied
  · cases happlied
  · split at happlied
    · cases happlied
    · cases happlied
    · rename_i deliveries settle' henqueue
      have hcount := enqueueBatch_ok (congrArg Prod.fst henqueue)
      simp only [List.countP_nil, Nat.zero_add] at hcount
      simp only [abortBatch] at happlied
      repeat' split at happlied
      all_goals
        first
        | cases happlied; done
        | cases happlied; exact ⟨hcount, rfl⟩

/-! ## Fixed inputs for replayed runs -/

/-- Topic names and bounds for runs on fixed inputs: one record in each transaction. -/
def singleRecordCfg : RelayCfg where
  taggedTopic := "tagged"
  discoveryTopic := "discovery"
  quarantineTopic := "quarantine"
  maxBatchRecords := 1
  maxBatchBytes := 1024
  maxMessageBytes := 1024 * 1024

/-- A broker and matcher that accept everything. -/
def healthyEnv : BatchEnv where
  classify _ _ := .unresolved
  discoveryJson _ := none

end Deblob.Kafka
