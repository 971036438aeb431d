import Deblob.Kafka.Relay
import Deblob.Lib.TransitionSystem

/-!
# The relay task against partition revokes

The relay task and the rebalance callback run on different threads and share one flag. The task is
cut at every point where the other side can be observed: the flag is set after the transaction
began and cleared after it ended, the group metadata is read right before the offsets are sent, and
the callback first swaps the flag and aborts later. Every held record carries whether its partition
was revoked since it was received; nothing the relay does reads that mark.
-/

namespace Deblob.Kafka

open Core Lib

/-- A received record, and whether its partition was revoked since. -/
structure HeldRecord where
  record : PendingRecord
  revoked : Bool := false

/-- Where the task stands between two records or inside one `process_batch` call. -/
inductive TaskPhase where
  | accumulating
  | begun
  | enqueueing (done : ℕ)
  | awaiting
  | produced
  | sendingOffsets (generation : ℕ)
  | committing (offsets : TopicPartition → Option ℕ)
  | aborting
  | closing
  | stopped

/-- A transaction the broker applied, with the batch it was made from. -/
structure CommittedBatch where
  records : List HeldRecord
  transaction : Transaction

structure TaskState where
  phase : TaskPhase := .accumulating
  batch : List HeldRecord := []
  deliveries : List Output := []
  settle : SettleState
  /-- The flag shared with the rebalance callback. -/
  transactionOpen : Bool := false
  /-- Whether the producer's transaction is open at the broker. -/
  brokerOpen : Bool := false
  /-- The revoke being handled: its partitions and what the callback swapped out of the flag. -/
  revoking : Option (List TopicPartition × Bool) := none
  assigned : List TopicPartition := []
  groupGeneration : ℕ := 0
  memberGeneration : ℕ := 0
  committed : List CommittedBatch := []

inductive TaskEvent where
  | assign (tps : List TopicPartition)
  | nextGeneration
  | rejoin
  | revokeBegin (tps : List TopicPartition)
  | revokeEnd (abortOk : Bool)
  | recv (tp : TopicPartition) (raw : RawRecord)
  | begin (ok : Bool)
  | setOpen
  | enqueue (env : BatchEnv)
  | await (env : BatchEnv)
  | readMetadata (available : Bool)
  | sendOffsets (ok : Bool)
  | commit (reply : CommitReply)
  | abort (ok : Bool)
  | clearOpen

/-- `process_batch` consumed the batch: nothing of it can be committed any more. -/
def TaskState.leave (state : TaskState) (phase : TaskPhase) : TaskState :=
  { state with phase, batch := [], deliveries := [] }

def HeldRecord.revoke (tps : List TopicPartition) (held : HeldRecord) : HeldRecord :=
  { held with revoked := held.revoked || tps.contains held.record.topicPartition }

/-- `pre_rebalance` returns: the partitions are relinquished, and a transaction that was flagged
open has been asked to abort. -/
def revokeEnd (state : TaskState) (tps : List TopicPartition) (swapped abortOk : Bool) :
    TaskState :=
  { state with
    revoking := none
    assigned := state.assigned.filter (!tps.contains ·)
    batch := state.batch.map (·.revoke tps)
    brokerOpen := state.brokerOpen && !(swapped && abortOk) }

/-- Enqueue the next record of the batch. Without an open transaction every enqueue fails. -/
def enqueueNext (cfg : RelayCfg) (env : BatchEnv) (state : TaskState) (done : ℕ)
    (held : HeldRecord) : TaskState :=
  let env := { env with enqueue := fun message ↦ state.brokerOpen && env.enqueue message }
  match runTransactionBody cfg env held.record state.settle with
  | (.ok (.produced, outputs), settle) => { state with
      phase := if done + 1 < state.batch.length then .enqueueing (done + 1) else .awaiting
      deliveries := state.deliveries ++ outputs
      settle }
  | (.ok (.fault, _), settle) => { state.leave .stopped with settle }
  | (.error _, settle) => { state.leave .aborting with settle }

/-- The broker fences by the generation it is handed, and by nothing else. -/
def sendOffsets (state : TaskState) (generation : ℕ) (ok : Bool) : TaskState :=
  if ok && state.brokerOpen && generation == state.groupGeneration then
    { state with phase := .committing fun tp ↦
        (maxOffsets (state.batch.map HeldRecord.record) tp).map (· + 1) }
  else state.leave .aborting

/-- The broker applies the commit of an open transaction, unless the call fails before that. -/
def commitTransaction (state : TaskState) (offsets : TopicPartition → Option ℕ)
    (reply : CommitReply) : TaskState :=
  let phase : TaskPhase := if state.brokerOpen && reply = .ok then .closing else .stopped
  if state.brokerOpen && reply.applied then
    { state.leave phase with
      brokerOpen := false
      committed := state.committed ++ [⟨state.batch, state.deliveries, offsets⟩] }
  else state.leave phase

/-- One step of the rebalance callback, the group or the task. -/
def taskStep (cfg : RelayCfg) (state : TaskState) : TaskEvent → Option TaskState
  | .assign tps => some { state with assigned := state.assigned ++ tps }
  | .nextGeneration => some { state with groupGeneration := state.groupGeneration + 1 }
  | .rejoin => some { state with memberGeneration := state.groupGeneration }
  | .revokeBegin tps =>
    match state.revoking with
    | none => some { state with
        revoking := some (tps, state.transactionOpen)
        transactionOpen := false }
    | some _ => none
  | .revokeEnd abortOk =>
    state.revoking.map fun (tps, swapped) ↦ revokeEnd state tps swapped abortOk
  | .recv tp raw =>
    match state.phase with
    | .accumulating =>
      if state.assigned.contains tp && accepts cfg (state.batch.map HeldRecord.record) then
        some { state with batch := state.batch ++ [{ record := raw.received tp }] }
      else none
    | _ => none
  | .begin ok =>
    match state.phase with
    | .accumulating =>
      if state.batch.isEmpty then none
      else if ok then some { state with phase := .begun, brokerOpen := true }
      else some (state.leave .stopped)
    | _ => none
  | .setOpen =>
    match state.phase with
    | .begun => some { state with phase := .enqueueing 0, transactionOpen := true }
    | _ => none
  | .enqueue env =>
    match state.phase with
    | .enqueueing done => state.batch[done]?.map (enqueueNext cfg env state done)
    | _ => none
  | .await env =>
    match state.phase with
    | .awaiting =>
      some (if awaitDeliveries env state.deliveries then { state with phase := .produced }
        else state.leave .aborting)
    | _ => none
  | .readMetadata available =>
    match state.phase with
    | .produced =>
      some (if cfg.fault = some .afterProduceBeforeCommit then state.leave .stopped
        else if available then { state with phase := .sendingOffsets state.memberGeneration }
        else state.leave .stopped)
    | _ => none
  | .sendOffsets ok =>
    match state.phase with
    | .sendingOffsets generation => some (sendOffsets state generation ok)
    | _ => none
  | .commit reply =>
    match state.phase with
    | .committing offsets => some (commitTransaction state offsets reply)
    | _ => none
  | .abort ok =>
    match state.phase with
    | .aborting =>
      some (if ok then { state with phase := .closing, brokerOpen := false }
        else { state with phase := .stopped })
    | _ => none
  | .clearOpen =>
    match state.phase with
    | .closing => some { state with phase := .accumulating, transactionOpen := false }
    | _ => none

def taskMachine (cfg : RelayCfg) : Machine TaskState TaskEvent where
  init := { settle := .new cfg.settle }
  step := taskStep cfg

/-- No committed transaction holds an output or an offset for a record whose partition was revoked
between its receipt and the commit. -/
def NoCommitAfterRevoke (state : TaskState) : Prop :=
  ∀ batch ∈ state.committed, ∀ held ∈ batch.records, held.revoked = true →
    (∀ output ∈ batch.transaction.outputs, output.origin ≠ held.record.cursor) ∧
      batch.transaction.offsets held.record.topicPartition = none

/-- The task is past `begin_transaction` and has neither committed nor given up. -/
def TaskPhase.inTransaction : TaskPhase → Bool
  | .begun | .enqueueing _ | .awaiting | .produced | .sendingOffsets _ | .committing _ => true
  | .accumulating | .aborting | .closing | .stopped => false

/-- When the callback returns, every held record of a revoked partition is inside a transaction
that is dead: this call or an earlier one aborted it. -/
def revokeAborts (state : TaskState) : TaskEvent → Prop
  | .revokeEnd abortOk => ∀ revoke ∈ state.revoking, ∀ held ∈ state.batch,
      held.record.topicPartition ∈ revoke.1 →
        state.phase.inTransaction = true ∧
          (state.brokerOpen = true → revoke.2 = true ∧ abortOk = true)
  | _ => True

instance (state : TaskState) (event : TaskEvent) : Decidable (revokeAborts state event) :=
  match event with
  | .revokeEnd abortOk => inferInstanceAs (Decidable (∀ revoke ∈ state.revoking,
      ∀ held ∈ state.batch, held.record.topicPartition ∈ revoke.1 →
        state.phase.inTransaction = true ∧
          (state.brokerOpen = true → revoke.2 = true ∧ abortOk = true)))
  | .assign _ | .nextGeneration | .rejoin | .revokeBegin _ | .recv .. | .begin _ | .setOpen
  | .enqueue _ | .await _ | .readMetadata _ | .sendOffsets _ | .commit _ | .abort _ | .clearOpen =>
    inferInstanceAs (Decidable True)

/-- A record whose partition was revoked is held only inside a dead transaction. -/
structure TaskInv (state : TaskState) : Prop where
  committed : ∀ batch ∈ state.committed, ∀ held ∈ batch.records, held.revoked = false
  dead : ∀ held ∈ state.batch, held.revoked = true →
    state.phase.inTransaction = true ∧ state.brokerOpen = false

namespace TaskInv

variable {cfg : RelayCfg} {state next : TaskState}

/-- Outside a transaction no held record is revoked. -/
theorem fresh (hinv : TaskInv state) (hphase : state.phase.inTransaction = false) :
    ∀ held ∈ state.batch, held.revoked = false := by
  intro held hmem
  by_contra hrevoked
  have hin := (hinv.dead held hmem (by simpa using hrevoked)).1
  simp [hphase] at hin

theorem of_batch_nil (hinv : TaskInv state) (hcommitted : next.committed = state.committed)
    (hbatch : next.batch = []) : TaskInv next where
  committed := by
    rw [hcommitted]
    exact hinv.committed
  dead := by simp [hbatch]

theorem leave (hinv : TaskInv state) (phase : TaskPhase) : TaskInv (state.leave phase) :=
  hinv.of_batch_nil rfl rfl

/-- A step that keeps the batch may move on inside the transaction, but not reopen it. -/
theorem of_same_batch (hinv : TaskInv state) (hcommitted : next.committed = state.committed)
    (hbatch : next.batch = state.batch)
    (hphase : state.phase.inTransaction = true → next.phase.inTransaction = true)
    (hopen : state.brokerOpen = false → next.brokerOpen = false) : TaskInv next where
  committed := by
    rw [hcommitted]
    exact hinv.committed
  dead := by
    rw [hbatch]
    intro held hmem hrevoked
    obtain ⟨hin, hclosed⟩ := hinv.dead held hmem hrevoked
    exact ⟨hphase hin, hopen hclosed⟩

theorem revokeEnd {tps : List TopicPartition} {swapped abortOk : Bool} (hinv : TaskInv state)
    (hrevoking : state.revoking = some (tps, swapped))
    (haborts : revokeAborts state (.revokeEnd abortOk)) :
    TaskInv (revokeEnd state tps swapped abortOk) where
  committed := hinv.committed
  dead := by
    intro held hmem hrevoked
    obtain ⟨before, hbefore, rfl⟩ := List.mem_map.mp hmem
    simp only [HeldRecord.revoke, Bool.or_eq_true, List.contains_iff_mem] at hrevoked
    rcases hrevoked with hearlier | hnow
    · obtain ⟨hin, hclosed⟩ := hinv.dead before hbefore hearlier
      exact ⟨hin, by simp [Kafka.revokeEnd, hclosed]⟩
    · obtain ⟨hin, habort⟩ := haborts _ hrevoking before hbefore hnow
      refine ⟨hin, ?_⟩
      cases hopen : state.brokerOpen with
      | false => simp [Kafka.revokeEnd, hopen]
      | true =>
          obtain ⟨hswapped, hok⟩ := habort hopen
          simp only at hswapped
          simp [Kafka.revokeEnd, hswapped, hok]

theorem enqueueNext {done : ℕ} (hinv : TaskInv state) (env : BatchEnv) (held : HeldRecord) :
    TaskInv (enqueueNext cfg env state done held) := by
  unfold Kafka.enqueueNext
  dsimp only
  generalize runTransactionBody cfg _ held.record state.settle = result
  obtain ⟨body, settle⟩ := result
  rcases body with err | ⟨body, outputs⟩
  · exact hinv.of_batch_nil rfl rfl
  · cases body with
    | produced =>
        refine hinv.of_same_batch rfl rfl (fun _ ↦ ?_) id
        dsimp only
        split <;> rfl
    | fault => exact hinv.of_batch_nil rfl rfl

/-- The commit of an open transaction: none of its records was revoked. -/
theorem commitTransaction (hinv : TaskInv state) (offsets : TopicPartition → Option ℕ)
    (reply : CommitReply) : TaskInv (commitTransaction state offsets reply) := by
  unfold Kafka.commitTransaction
  dsimp only
  split
  · rename_i happlied
    have hopen : state.brokerOpen = true := (Bool.and_eq_true _ _ ▸ happlied).1
    refine ⟨?_, by simp [TaskState.leave]⟩
    intro batch hmem held hheld
    rcases List.mem_append.mp hmem with hold | hnew
    · exact hinv.committed batch hold held hheld
    · obtain rfl := List.mem_singleton.mp hnew
      by_contra hrevoked
      have hclosed := (hinv.dead held hheld (by simpa using hrevoked)).2
      simp [hopen] at hclosed
  · exact hinv.leave _

theorem step {event : TaskEvent} (hinv : TaskInv state) (haborts : revokeAborts state event)
    (hstep : taskStep cfg state event = some next) : TaskInv next := by
  cases event with
  | assign | nextGeneration | rejoin =>
      cases hstep
      exact hinv.of_same_batch rfl rfl id id
  | revokeBegin tps =>
      simp only [taskStep] at hstep
      split at hstep <;> cases hstep
      exact hinv.of_same_batch rfl rfl id id
  | revokeEnd abortOk =>
      obtain ⟨⟨tps, swapped⟩, hrevoking, rfl⟩ := Option.map_eq_some_iff.mp hstep
      exact hinv.revokeEnd hrevoking haborts
  | recv tp raw =>
      simp only [taskStep] at hstep
      split at hstep
      · rename_i hphase
        split at hstep <;> cases hstep
        have hfresh := hinv.fresh (by rw [hphase]; rfl)
        refine ⟨hinv.committed, ?_⟩
        intro held hmem hrevoked
        rcases List.mem_append.mp hmem with hold | hnew
        · simp [hfresh held hold] at hrevoked
        · simp [List.mem_singleton.mp hnew] at hrevoked
      · cases hstep
  | begin ok =>
      simp only [taskStep] at hstep
      split at hstep
      · rename_i hphase
        have hfresh := hinv.fresh (by rw [hphase]; rfl)
        repeat' split at hstep
        · cases hstep
        · cases hstep
          refine ⟨hinv.committed, ?_⟩
          intro held hmem hrevoked
          simp [hfresh held hmem] at hrevoked
        · cases hstep
          exact hinv.leave _
      · cases hstep
  | setOpen =>
      simp only [taskStep] at hstep
      split at hstep <;> cases hstep
      exact hinv.of_same_batch rfl rfl (fun _ ↦ rfl) id
  | enqueue env =>
      simp only [taskStep] at hstep
      split at hstep
      · obtain ⟨held, -, rfl⟩ := Option.map_eq_some_iff.mp hstep
        exact hinv.enqueueNext env held
      · cases hstep
  | await env =>
      simp only [taskStep] at hstep
      split at hstep <;> cases hstep
      split
      · exact hinv.of_same_batch rfl rfl (fun _ ↦ rfl) id
      · exact hinv.leave _
  | readMetadata available =>
      simp only [taskStep] at hstep
      split at hstep <;> cases hstep
      repeat' split
      · exact hinv.leave _
      · exact hinv.of_same_batch rfl rfl (fun _ ↦ rfl) id
      · exact hinv.leave _
  | sendOffsets ok =>
      simp only [taskStep] at hstep
      split at hstep <;> cases hstep
      unfold sendOffsets
      split
      · exact hinv.of_same_batch rfl rfl (fun _ ↦ rfl) id
      · exact hinv.leave _
  | commit reply =>
      simp only [taskStep] at hstep
      split at hstep <;> cases hstep
      exact hinv.commitTransaction _ reply
  | abort ok =>
      simp only [taskStep] at hstep
      split at hstep
      · rename_i hphase
        have hfresh := hinv.fresh (by rw [hphase]; rfl)
        cases hstep
        split
        all_goals
          refine ⟨hinv.committed, fun held hmem hrevoked ↦ ?_⟩
          simp [hfresh held hmem] at hrevoked
      · cases hstep
  | clearOpen =>
      simp only [taskStep] at hstep
      split at hstep
      · rename_i hphase
        have hfresh := hinv.fresh (by rw [hphase]; rfl)
        cases hstep
        refine ⟨hinv.committed, fun held hmem hrevoked ↦ ?_⟩
        simp [hfresh held hmem] at hrevoked
      · cases hstep

end TaskInv

/-- No commit after a revoke, as long as every revoke that finds a held record aborts it. -/
theorem task_noCommitAfterRevoke (cfg : RelayCfg) :
    ∀ state, (taskMachine cfg).Reachable revokeAborts state → NoCommitAfterRevoke state := by
  intro state reached
  have hinv : TaskInv state :=
    reached.invariant ⟨by simp [taskMachine], by simp [taskMachine]⟩
      fun _ _ _ hinv haborts hstep ↦ hinv.step haborts hstep
  intro batch hbatch held hheld hrevoked
  simp [hinv.committed batch hbatch held hheld] at hrevoked

/-- One record is committed; a revoke then aborts the transaction that holds the second one. -/
theorem task_noCommitAfterRevoke_aborted :
    ∃ state, state.committed.length = 1 ∧ NoCommitAfterRevoke state := by
  have reached : (taskMachine singleRecordCfg).Reachable revokeAborts _ :=
    Machine.reachableFrom_replay [.assign [("raw", 0)], .recv ("raw", 0) ⟨0, none, none, none⟩,
      .begin true, .setOpen, .enqueue healthyEnv, .await healthyEnv, .readMetadata true,
      .sendOffsets true,
      .commit .ok, .clearOpen, .recv ("raw", 0) ⟨1, none, none, none⟩, .begin true, .setOpen,
      .enqueue healthyEnv, .revokeBegin [("raw", 0)], .revokeEnd true, .await healthyEnv,
      .readMetadata true, .sendOffsets true, .abort false] rfl
  exact ⟨_, rfl, task_noCommitAfterRevoke singleRecordCfg _ reached⟩

/-- A record is accumulated, its partition is revoked before the transaction begins, and the
commit goes through under the generation read after the rebalance. -/
theorem task_commits_after_revoke :
    ∃ state, (taskMachine singleRecordCfg).Reachable Machine.always state ∧
      ¬ NoCommitAfterRevoke state := by
  refine ⟨_, Machine.reachableFrom_replay
    [.assign [("raw", 0)], .recv ("raw", 0) ⟨0, none, none, none⟩,
      .revokeBegin [("raw", 0)], .revokeEnd true, .nextGeneration, .rejoin, .begin true, .setOpen,
      .enqueue healthyEnv, .await healthyEnv, .readMetadata true, .sendOffsets true,
      .commit .ok] rfl, ?_⟩
  intro hlaw
  have hoffset := (hlaw _ (List.mem_singleton_self _) _ (List.mem_singleton_self _) rfl).2
  revert hoffset
  decide

end Deblob.Kafka
