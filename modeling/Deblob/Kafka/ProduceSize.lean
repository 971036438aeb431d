import Deblob.Core.TagText
import Deblob.Kafka.Results
import Mathlib.Algebra.GroupWithZero.Nat

/-!
# The size of produced messages

The producer refuses a message whose key, value and headers exceed `maxMessageBytes`, and one
refused message aborts its batch. The relay measures the value against a margin and leaves key and
inbound headers unmeasured. Discovery evidence always fits; a result fits exactly when its parts do.
-/

namespace Deblob.Kafka

open Core

def optionBytes (value : Option Bytes) : ℕ := (value.map List.length).getD 0

def Header.bytes (header : Header) : ℕ := (utf8 header.key).length + optionBytes header.value

def Headers.bytes (headers : Headers) : ℕ := (headers.map Header.bytes).sum

def Produced.bytes (message : Produced) : ℕ :=
  optionBytes message.key + optionBytes message.payload + message.headers.bytes

def RawRecord.bytes (raw : RawRecord) : ℕ :=
  optionBytes raw.key + optionBytes raw.payload + (raw.headers.getD []).bytes

theorem Headers.bytes_append (front back : Headers) :
    Headers.bytes (front ++ back) = front.bytes + back.bytes := by
  simp [bytes]

/-- The bytes of the headers the relay adds: two names of 16 and 13 bytes with the tag and the
origin, and a name of 24 bytes with the reason of a quarantined record. -/
def ownBytes (schemaRef : SchemaRef) (cursor : SourceCursor) (reason : Option QuarantineReason) :
    ℕ :=
  16 + schemaRefBytes schemaRef + (13 + (utf8 (originValue cursor)).length) +
    (reason.map fun reason ↦ 24 + (utf8 (quarantineReasonValue reason)).length).getD 0

theorem bytes_ownHeaders (schemaRef : SchemaRef) (cursor : SourceCursor)
    (reason : Option QuarantineReason) :
    (ownHeaders schemaRef cursor reason).bytes = ownBytes schemaRef cursor reason := by
  have hschemaId : (utf8 schemaIdHeader).length = 16 := by decide
  have horigin : (utf8 originHeader).length = 13 := by decide
  have hreason : (utf8 quarantineReasonHeader).length = 24 := by decide
  have htwo : (ownHeaders schemaRef cursor none).bytes =
      16 + schemaRefBytes schemaRef + (13 + (utf8 (originValue cursor)).length) := by
    simp [ownHeaders, Headers.bytes, Header.bytes, optionBytes, length_headerValue, hschemaId,
      horigin]
  cases reason with
  | none => exact htwo
  | some reason =>
      calc (ownHeaders schemaRef cursor (some reason)).bytes
          = (ownHeaders schemaRef cursor none).bytes + Header.bytes
              ⟨quarantineReasonHeader, some (utf8 (quarantineReasonValue reason))⟩ := by
            simp [ownHeaders, Headers.bytes, add_assoc]
        _ = ownBytes schemaRef cursor (some reason) := by
            rw [htwo, Header.bytes, hreason]
            rfl

/-- The messages a record hands to the producer, whatever the producer answers and wherever a fault
is injected. -/
def HandsOver (cfg : RelayCfg) (env : BatchEnv) (record : PendingRecord) (settle : SettleState)
    (output : Output) : Prop :=
  ∃ fault enqueue outcome outputs,
    (runTransactionBody { cfg with fault := fault } { env with enqueue := enqueue } record
      settle).1 = .ok (outcome, outputs) ∧ output ∈ outputs

/-- Key, kept headers, added headers and forwarded value fit the producer together. -/
def ResultFits (cfg : RelayCfg) (env : BatchEnv) (tp : TopicPartition) (raw : RawRecord)
    (settle : SettleState) : Prop :=
  optionBytes raw.key + optionBytes (forwardedPayload cfg (raw.received tp)) +
    ((stripReserved raw.headers).bytes +
      ownBytes (resultRef cfg env (raw.received tp) settle) (raw.cursor tp)
        (resultReason cfg env (raw.received tp) settle)) ≤ cfg.maxMessageBytes

instance (cfg : RelayCfg) (env : BatchEnv) (tp : TopicPartition) (raw : RawRecord)
    (settle : SettleState) : Decidable (ResultFits cfg env tp raw settle) :=
  inferInstanceAs (Decidable (_ ≤ _))

theorem resultFits_iff (cfg : RelayCfg) (env : BatchEnv) (tp : TopicPartition) (raw : RawRecord)
    (settle : SettleState) :
    ResultFits cfg env tp raw settle ↔
      (resultOutput cfg env (raw.received tp) settle).message.bytes ≤ cfg.maxMessageBytes := by
  obtain ⟨hkey, hpayload, hheaders⟩ := resultOutput_message cfg env (raw.received tp) settle
  unfold Produced.bytes
  rw [hkey, hpayload, hheaders, Headers.bytes_append, bytes_ownHeaders]
  rfl

/-- Discovery evidence always fits: its value was measured, and its key is an identifier. -/
theorem discoveryOutput_fits {cfg : RelayCfg} (hmax : relayProduceMargin < cfg.maxMessageBytes)
    (cursor : SourceCursor) (candId : CandidateId) {discoveryBytes : Bytes}
    (hfits : discoveryBytes.length ≤ cfg.maxMessageBytes - relayProduceMargin) :
    (discoveryOutput cfg cursor candId discoveryBytes).message.bytes ≤ cfg.maxMessageBytes := by
  have hkey : (utf8 candId.asStr).length = 57 := length_headerValue (.provisional candId)
  have hbytes : (discoveryOutput cfg cursor candId discoveryBytes).message.bytes =
      57 + discoveryBytes.length := by
    simp [discoveryOutput, Produced.bytes, optionBytes, Headers.bytes, hkey]
  unfold relayProduceMargin at hmax hfits
  omega

theorem produceDiscovery_accepting (cfg : RelayCfg) {env : BatchEnv}
    (hjson : ∀ msg, (env.discoveryJson msg).isSome) (cursor : SourceCursor) (payload : Bytes)
    (schemaRef : SchemaRef) :
    ∃ discovery, produceDiscovery { cfg with fault := none } { env with enqueue := fun _ ↦ true }
      cursor payload schemaRef = .ok discovery := by
  unfold produceDiscovery
  split
  · rename_i candId
    obtain ⟨discoveryBytes, hbytes⟩ :=
      Option.isSome_iff_exists.mp (hjson ⟨candId.asStr, payload, cursor.topic, cursor⟩)
    simp only [hbytes]
    split_ifs
    · exact ⟨_, rfl⟩
    · exact ⟨_, rfl⟩
  · exact ⟨_, rfl⟩

/-- A producer that takes everything gets the whole result. -/
theorem runTransactionBody_accepting (cfg : RelayCfg) {env : BatchEnv}
    (hjson : ∀ msg, (env.discoveryJson msg).isSome) (record : PendingRecord)
    (settle : SettleState) :
    ∃ outputs, (runTransactionBody { cfg with fault := none } { env with enqueue := fun _ ↦ true }
      record settle).1 = .ok (.produced, outputs) := by
  have hproduce (output : Output) :
      produce { env with enqueue := fun _ ↦ true } output = .ok output := rfl
  simp only [runTransactionBody, hproduce]
  cases record.payload with
  | none => exact ⟨_, rfl⟩
  | some payload =>
      simp only
      split_ifs
      · exact ⟨_, rfl⟩
      · rcases settle.before record.cursor.topic with ⟨decision, settle'⟩
        cases decision with
        | fastPath known => exact ⟨_, rfl⟩
        | classify driftCheck =>
            simp only [produceClassified, hproduce]
            obtain ⟨discovery, hdiscovery⟩ := produceDiscovery_accepting cfg hjson
              record.cursor payload (env.classify record.cursor payload).schemaRef
            rw [hdiscovery]
            refine ⟨discovery ++ [classifiedOutput cfg record payload
              (env.classify record.cursor payload)], ?_⟩
            apply Lib.Except.bind_eq_ok.mpr
            refine ⟨discovery, rfl, ?_⟩
            rw [if_neg (by simp)]
            rfl

theorem handsOver_resultOutput {cfg : RelayCfg} {env : BatchEnv}
    (hjson : ∀ msg, (env.discoveryJson msg).isSome) (record : PendingRecord)
    (settle : SettleState) :
    HandsOver cfg env record settle (resultOutput cfg env record settle) := by
  obtain ⟨outputs, hok⟩ := runTransactionBody_accepting cfg hjson record settle
  refine ⟨none, _, _, outputs, hok, ?_⟩
  obtain ⟨discovery, -, ⟨hfault, -⟩ | ⟨-, rfl⟩⟩ := runTransactionBody_cases hok
  · cases hfault
  · exact List.mem_append_right _ (List.mem_singleton.mpr rfl)

/-- Every message of a record fits, and one of them is its result, exactly when the parts of that
result fit together. -/
theorem handsOver_fits_iff {cfg : RelayCfg} (hmax : relayProduceMargin < cfg.maxMessageBytes)
    {env : BatchEnv} (hjson : ∀ msg, (env.discoveryJson msg).isSome) (tp : TopicPartition)
    (raw : RawRecord) (settle : SettleState) :
    ((∀ output, HandsOver cfg env (raw.received tp) settle output →
        output.message.bytes ≤ cfg.maxMessageBytes) ∧
      ∀ fault enqueue outputs, (runTransactionBody { cfg with fault := fault }
          { env with enqueue := enqueue } (raw.received tp) settle).1 = .ok (.produced, outputs) →
        outputs.countP (·.isResultOf (raw.cursor tp)) = 1) ↔
      ResultFits cfg env tp raw settle := by
  have hcount (fault : Option FaultPoint) (enqueue : Produced → Bool) (outputs : List Output)
      (hok : (runTransactionBody { cfg with fault := fault } { env with enqueue := enqueue }
        (raw.received tp) settle).1 = .ok (.produced, outputs)) :
      outputs.countP (·.isResultOf (raw.cursor tp)) = 1 := by
    rw [runTransactionBody_ok hok (raw.cursor tp)]
    exact if_pos rfl
  rw [resultFits_iff]
  constructor
  · rintro ⟨hfits, -⟩
    exact hfits _ (handsOver_resultOutput hjson (raw.received tp) settle)
  · intro hfits
    refine ⟨?_, hcount⟩
    rintro output ⟨fault, enqueue, outcome, outputs, hok, hmem⟩
    obtain ⟨discovery, hdiscovery, houtputs⟩ := runTransactionBody_cases hok
    have hevidence : ∀ output ∈ discovery, output.message.bytes ≤ cfg.maxMessageBytes := by
      obtain rfl | ⟨candId, discoveryBytes, hlength, rfl⟩ := hdiscovery
      · simp
      · intro output hmem
        rw [List.mem_singleton.mp hmem]
        exact discoveryOutput_fits hmax _ candId hlength
    obtain ⟨-, rfl⟩ | ⟨-, rfl⟩ := houtputs
    · exact hevidence output hmem
    · rw [List.mem_append, List.mem_singleton] at hmem
      cases hmem with
      | inl hmem => exact hevidence output hmem
      | inr hresult =>
          rw [hresult]
          exact hfits

/-- A matcher whose evidence can be encoded. -/
def encodingEnv : BatchEnv := { healthyEnv with discoveryJson := fun _ ↦ some [] }

/-- A tombstone without a key fits, whatever it is tagged with. -/
theorem handsOver_fits_iff_forged :
    (∀ output, HandsOver singleRecordCfg encodingEnv (forgedRecord.received ("raw", 0)) (.new {})
        output → output.message.bytes ≤ singleRecordCfg.maxMessageBytes) ∧
      ∀ fault enqueue outputs, (runTransactionBody { singleRecordCfg with fault := fault }
          { encodingEnv with enqueue := enqueue } (forgedRecord.received ("raw", 0))
          (.new {})).1 = .ok (.produced, outputs) →
        outputs.countP (·.isResultOf (forgedRecord.cursor ("raw", 0))) = 1 :=
  (handsOver_fits_iff (by decide) (fun _ ↦ rfl) _ _ _).mpr (by decide)

/-- The margin covers what is not measured as long as that stays within it. -/
theorem resultFits_of_margin {cfg : RelayCfg} (hmax : relayProduceMargin < cfg.maxMessageBytes)
    {env : BatchEnv} {tp : TopicPartition} {raw : RawRecord} {settle : SettleState}
    (hmargin : optionBytes raw.key + ((stripReserved raw.headers).bytes +
      ownBytes (resultRef cfg env (raw.received tp) settle) (raw.cursor tp)
        (resultReason cfg env (raw.received tp) settle)) ≤ relayProduceMargin) :
    ResultFits cfg env tp raw settle := by
  have hpayload : optionBytes (forwardedPayload cfg (raw.received tp)) ≤
      cfg.maxMessageBytes - relayProduceMargin := by
    cases hforwarded : forwardedPayload cfg (raw.received tp) with
    | none => exact Nat.zero_le _
    | some payload =>
        have hlength := (Option.filter_eq_some_iff.mp hforwarded).2
        exact of_decide_eq_true hlength
  unfold ResultFits
  omega

/-! ## A record within the limit whose result is not -/

/-- The largest payload that is produced, under a key as long as the margin. -/
def longKeyRecord : RawRecord where
  offset := 0
  key := some (List.replicate relayProduceMargin 0)
  payload := some (List.replicate (1024 * 1024 - relayProduceMargin) 0)
  headers := none

/-- A record whose key takes the margin and whose payload takes the rest overflows once it is
tagged. -/
theorem exists_overflow {raw : RawRecord} {key payload : Bytes} (hkey : raw.key = some key)
    (hpayload : raw.payload = some payload) (hheaders : raw.headers = none)
    (hmargin : key.length = relayProduceMargin)
    (hrest : payload.length = singleRecordCfg.maxMessageBytes - relayProduceMargin) :
    raw.bytes ≤ singleRecordCfg.maxMessageBytes ∧
      ∃ output, HandsOver singleRecordCfg encodingEnv (raw.received ("raw", 0)) (.new {}) output ∧
        singleRecordCfg.maxMessageBytes < output.message.bytes := by
  have hforwarded : forwardedPayload singleRecordCfg (raw.received ("raw", 0)) = some payload :=
    Option.filter_eq_some_iff.mpr ⟨hpayload, decide_eq_true hrest.le⟩
  have hsmall : relayProduceMargin ≤ singleRecordCfg.maxMessageBytes := by decide
  constructor
  · have hbytes : raw.bytes = key.length + payload.length := by
      simp [RawRecord.bytes, optionBytes, Headers.bytes, hkey, hpayload, hheaders]
    omega
  · refine ⟨_, handsOver_resultOutput (fun _ ↦ rfl) _ _, not_le.mp ?_⟩
    rw [← resultFits_iff]
    unfold ResultFits
    rw [hkey, hforwarded]
    simp only [optionBytes, Option.map_some, Option.getD_some, ownBytes]
    omega

theorem longKeyRecord_overflows :
    relayProduceMargin < singleRecordCfg.maxMessageBytes ∧
      longKeyRecord.bytes ≤ singleRecordCfg.maxMessageBytes ∧
      ∃ output, HandsOver singleRecordCfg encodingEnv (longKeyRecord.received ("raw", 0)) (.new {})
        output ∧ singleRecordCfg.maxMessageBytes < output.message.bytes := by
  refine ⟨by decide, exists_overflow rfl rfl rfl List.length_replicate ?_⟩
  exact List.length_replicate

end Deblob.Kafka
