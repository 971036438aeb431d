import Deblob.Kafka.Relay

/-!
# The result of a record

Every record is answered by one tagged or quarantined message. Its parts are read off the record
and the branch it takes: its tag, the reason it is quarantined for, what is forwarded of its
payload, and the headers the relay adds.
-/

namespace Deblob.Kafka

open Core

/-- The headers the relay adds to a record. -/
def ownHeaders (schemaRef : SchemaRef) (cursor : SourceCursor) (reason : Option QuarantineReason) :
    Headers :=
  [⟨schemaIdHeader, some (utf8 schemaRef.headerValue)⟩,
    ⟨originHeader, some (utf8 (originValue cursor))⟩] ++
    reason.toList.map fun reason ↦
      ⟨quarantineReasonHeader, some (utf8 (quarantineReasonValue reason))⟩

theorem withTag_eq (headers : Headers) (schemaRef : SchemaRef) (cursor : SourceCursor) :
    withTag headers schemaRef cursor = headers ++ ownHeaders schemaRef cursor none := by
  simp [withTag, ownHeaders]

theorem withQuarantineReason_eq (headers : Headers) (schemaRef : SchemaRef) (cursor : SourceCursor)
    (reason : QuarantineReason) :
    withQuarantineReason (withTag headers schemaRef cursor) reason =
      headers ++ ownHeaders schemaRef cursor (some reason) := by
  simp [withTag, withQuarantineReason, ownHeaders]

/-- The tag the relay decides on for a record. -/
def resultRef (cfg : RelayCfg) (env : BatchEnv) (record : PendingRecord) (settle : SettleState) :
    SchemaRef :=
  match record.payload with
  | none => .tombstone
  | some payload =>
    if payload.length > cfg.maxMessageBytes - relayProduceMargin then .malformed
    else
      match (settle.before record.cursor.topic).1 with
      | .fastPath known => .known known
      | .classify _ => (env.classify record.cursor payload).schemaRef

/-- The reason a record is quarantined for, if it is. -/
def resultReason (cfg : RelayCfg) (env : BatchEnv) (record : PendingRecord)
    (settle : SettleState) : Option QuarantineReason :=
  match record.payload with
  | none => none
  | some payload =>
    if payload.length > cfg.maxMessageBytes - relayProduceMargin then some .sizeExceeded
    else
      match (settle.before record.cursor.topic).1 with
      | .fastPath _ => none
      | .classify _ =>
        let classification := env.classify record.cursor payload
        if classification.schemaRef = .malformed then classification.quarantine else none

/-- What is forwarded of a payload: all of it, or nothing when it is too large. -/
def forwardedPayload (cfg : RelayCfg) (record : PendingRecord) : Option Bytes :=
  record.payload.filter fun payload ↦ payload.length ≤ cfg.maxMessageBytes - relayProduceMargin

theorem classifiedOutput_message (cfg : RelayCfg) (record : PendingRecord) (payload : Bytes)
    (classification : Classification) :
    (classifiedOutput cfg record payload classification).message.key = record.key ∧
      (classifiedOutput cfg record payload classification).message.payload = some payload ∧
      (classifiedOutput cfg record payload classification).message.headers =
        record.headers ++ ownHeaders classification.schemaRef record.cursor
          (if classification.schemaRef = .malformed then classification.quarantine else none) := by
  unfold classifiedOutput
  split
  · rename_i hmalformed
    refine ⟨rfl, rfl, ?_⟩
    rw [if_pos hmalformed]
    exact (withQuarantineReason_eq ..).trans (by rw [Option.some_get])
  · rename_i hmalformed
    refine ⟨rfl, rfl, ?_⟩
    rw [if_neg hmalformed]
    exact withTag_eq ..

/-- The key is kept, and the rest of the result is what its parts say. -/
theorem resultOutput_message (cfg : RelayCfg) (env : BatchEnv) (record : PendingRecord)
    (settle : SettleState) :
    (resultOutput cfg env record settle).message.key = record.key ∧
      (resultOutput cfg env record settle).message.payload = forwardedPayload cfg record ∧
      (resultOutput cfg env record settle).message.headers =
        record.headers ++ ownHeaders (resultRef cfg env record settle) record.cursor
          (resultReason cfg env record settle) := by
  cases hpayload : record.payload with
  | none =>
      simp only [resultOutput, resultRef, resultReason, forwardedPayload, hpayload]
      exact ⟨trivial, rfl, withTag_eq ..⟩
  | some payload =>
      by_cases hlarge : payload.length > cfg.maxMessageBytes - relayProduceMargin
      · have hforwarded : forwardedPayload cfg record = none := by
          simp only [forwardedPayload, hpayload, Option.filter_some]
          exact if_neg (by simpa using hlarge)
        simp only [resultOutput, resultRef, resultReason, hpayload, if_pos hlarge]
        exact ⟨trivial, hforwarded.symm, withQuarantineReason_eq ..⟩
      · have hforwarded : forwardedPayload cfg record = some payload := by
          simp only [forwardedPayload, hpayload, Option.filter_some]
          exact if_pos (by simpa using hlarge)
        simp only [resultOutput, resultRef, resultReason, hpayload, if_neg hlarge]
        cases (settle.before record.cursor.topic).1 with
        | fastPath known => exact ⟨rfl, hforwarded.symm, withTag_eq ..⟩
        | classify driftCheck =>
            rw [hforwarded]
            exact classifiedOutput_message ..

theorem resultOutput_headers (cfg : RelayCfg) (env : BatchEnv) (record : PendingRecord)
    (settle : SettleState) :
    (resultOutput cfg env record settle).message.headers =
      record.headers ++ ownHeaders (resultRef cfg env record settle) record.cursor
        (resultReason cfg env record settle) :=
  (resultOutput_message cfg env record settle).2.2

/-! ## A fixed record -/

/-- A tombstone whose sender tagged it. -/
def forgedRecord : RawRecord :=
  ⟨7, none, none, some [⟨"Deblob-Schema-Id", some (utf8 "forged")⟩]⟩

end Deblob.Kafka
