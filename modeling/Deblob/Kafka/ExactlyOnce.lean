import Deblob.Kafka.Relay
import Deblob.Lib.TransitionSystem
import Mathlib.Data.List.Nodup

/-!
# The relay loop against atomic transactions

One relay instance consumes any number of partitions. `recv` advances an in-memory position that
only a fresh start resets to the committed offsets; `process` runs one transaction over what was
accumulated. An aborted batch is dropped while the position stays where it is, so the law that
every record below the committed offset was produced exactly once needs every transaction to start
at the committed offset of its partitions.
-/

namespace Deblob.Kafka

open Core Lib

/-- The raw topics: each partition is a sequence with increasing offsets. -/
structure RawLog where
  records : TopicPartition → List RawRecord
  increasing : ∀ tp, (records tp).Pairwise (·.offset < ·.offset)

/-- The relay instance together with what the broker made visible. -/
structure RelayState where
  committed : TopicPartition → ℕ
  visible : List Output
  position : TopicPartition → ℕ
  batch : List PendingRecord
  settle : SettleState
  running : Bool

inductive RelayEvent where
  | recv (tp : TopicPartition)
  | process (env : BatchEnv)
  | restart

/-- The next record of a partition at the in-memory position. -/
def RawLog.next (log : RawLog) (position : ℕ) (tp : TopicPartition) : Option RawRecord :=
  (log.records tp).find? fun raw ↦ decide (position ≤ raw.offset)

def recvStep (cfg : RelayCfg) (log : RawLog) (state : RelayState) (tp : TopicPartition) :
    Option RelayState :=
  if state.running && accepts cfg state.batch then
    (log.next (state.position tp) tp).map fun raw ↦
      { state with
        position := Function.update state.position tp (raw.offset + 1)
        batch := state.batch ++ [raw.received tp] }
  else none

/-- A batch may be cut after any record: the linger timer and the shutdown are not ordered against
`recv`. An error or a simulated crash ends the run, an abort does not. -/
def processStep (cfg : RelayCfg) (state : RelayState) (env : BatchEnv) : Option RelayState :=
  if state.running && !state.batch.isEmpty then
    let result := processBatch cfg env state.batch state.settle
    let running := match result.outcome with
      | .ok .committed | .ok .aborted => true
      | .ok .faultInjected | .error _ => false
    match result.applied with
    | none => some { state with batch := [], settle := result.settle, running }
    | some transaction => some { state with
        committed := fun tp ↦ (transaction.offsets tp).getD (state.committed tp)
        visible := state.visible ++ transaction.outputs
        batch := []
        settle := result.settle
        running }
  else none

/-- A fresh relay, at any time: it resumes at the committed offsets. -/
def restartStep (cfg : RelayCfg) (state : RelayState) : RelayState :=
  { state with
    position := state.committed
    batch := []
    settle := .new cfg.settle
    running := true }

def relayMachine (cfg : RelayCfg) (log : RawLog) : Machine RelayState RelayEvent where
  init := ⟨fun _ ↦ 0, [], fun _ ↦ 0, [], .new cfg.settle, true⟩
  step state
    | .recv tp => recvStep cfg log state tp
    | .process env => processStep cfg state env
    | .restart => some (restartStep cfg state)

variable {cfg : RelayCfg} {log : RawLog}

/-- Every record below its partition's committed offset has exactly one visible result, and no
record at or above it has one. -/
def ExactlyOnce (log : RawLog) (state : RelayState) : Prop :=
  ∀ tp, ∀ raw ∈ log.records tp,
    state.visible.countP (·.isResultOf (raw.cursor tp)) =
      if raw.offset < state.committed tp then 1 else 0

/-- Nothing was left behind: the records between a partition's committed offset and a record of
the batch are in the batch themselves. -/
def StartsAtCommitted (log : RawLog) (state : RelayState) : Prop :=
  ∀ record ∈ state.batch, ∀ raw ∈ log.records record.topicPartition,
    state.committed record.topicPartition ≤ raw.offset → raw.offset < record.cursor.offset →
      raw.cursor record.topicPartition ∈ state.batch.map PendingRecord.cursor

/-- Every transaction starts at the committed offsets. -/
def processesFromCommitted (log : RawLog) (state : RelayState) : RelayEvent → Prop
  | .process _ => StartsAtCommitted log state
  | .recv _ | .restart => True

instance (state : RelayState) : Decidable (StartsAtCommitted log state) :=
  inferInstanceAs (Decidable (∀ record ∈ state.batch, ∀ raw ∈ log.records record.topicPartition,
    _ → _ → raw.cursor record.topicPartition ∈ state.batch.map PendingRecord.cursor))

instance (state : RelayState) (event : RelayEvent) :
    Decidable (processesFromCommitted log state event) :=
  match event with
  | .process _ => inferInstanceAs (Decidable (StartsAtCommitted log state))
  | .recv _ | .restart => inferInstanceAs (Decidable True)

/-- What holds between the batch, the in-memory position and the committed offsets. -/
structure RelayInv (log : RawLog) (state : RelayState) : Prop where
  exactlyOnce : ExactlyOnce log state
  committed_le : ∀ tp, state.committed tp ≤ state.position tp
  held : ∀ record ∈ state.batch, ∃ raw ∈ log.records record.topicPartition,
    record.cursor = raw.cursor record.topicPartition ∧
      state.committed record.topicPartition ≤ raw.offset ∧
      raw.offset < state.position record.topicPartition
  distinct : (state.batch.map PendingRecord.cursor).Nodup

theorem RawRecord.cursor_eq_iff {tp other : TopicPartition} {raw found : RawRecord} :
    raw.cursor tp = found.cursor other ↔ tp = other ∧ raw.offset = found.offset := by
  simp [cursor, Prod.ext_iff, and_assoc]

@[simp]
theorem RawRecord.received_topicPartition (tp : TopicPartition) (raw : RawRecord) :
    (raw.received tp).topicPartition = tp := rfl

theorem relayInv_init : RelayInv log (relayMachine cfg log).init where
  exactlyOnce := by simp [ExactlyOnce, relayMachine]
  committed_le := by simp [relayMachine]
  held := by simp [relayMachine]
  distinct := by simp [relayMachine]

theorem RelayInv.restart {state : RelayState} (hinv : RelayInv log state) :
    RelayInv log (restartStep cfg state) where
  exactlyOnce := hinv.exactlyOnce
  committed_le := fun _ ↦ le_rfl
  held := by simp [restartStep]
  distinct := by simp [restartStep]

/-- A received record lies at or above the old position, so above everything already held. -/
theorem RelayInv.recv {state next : RelayState} {tp : TopicPartition} (hinv : RelayInv log state)
    (hstep : recvStep cfg log state tp = some next) : RelayInv log next := by
  unfold recvStep at hstep
  split at hstep
  · obtain ⟨raw, hnext, rfl⟩ := Option.map_eq_some_iff.mp hstep
    have hraw : raw ∈ log.records tp := List.mem_of_find?_eq_some hnext
    have hposition : state.position tp ≤ raw.offset := by simpa using List.find?_some hnext
    have hgrow (other : TopicPartition) :
        state.position other ≤ Function.update state.position tp (raw.offset + 1) other := by
      by_cases hother : other = tp
      · subst hother
        simp
        omega
      · simp [hother]
    refine ⟨hinv.exactlyOnce, fun other ↦ (hinv.committed_le other).trans (hgrow other), ?_, ?_⟩
    · intro record hmem
      rcases List.mem_append.mp hmem with hold | hnew
      · obtain ⟨found, hfound, hcursor, hcommitted, hbelow⟩ := hinv.held record hold
        exact ⟨found, hfound, hcursor, hcommitted, hbelow.trans_le (hgrow _)⟩
      · obtain rfl := List.mem_singleton.mp hnew
        refine ⟨raw, hraw, rfl, (hinv.committed_le tp).trans hposition, ?_⟩
        simp
    · rw [List.map_append, List.nodup_append]
      refine ⟨hinv.distinct, by simp, ?_⟩
      rintro cursor hold _ hnew rfl
      obtain ⟨record, hmem, rfl⟩ := List.mem_map.mp hold
      obtain ⟨found, -, hcursor, -, hbelow⟩ := hinv.held record hmem
      have hsame : found.cursor record.topicPartition = raw.cursor tp := by
        rw [← hcursor]
        simpa [RawRecord.received] using hnew
      obtain ⟨htp, hoffset⟩ := RawRecord.cursor_eq_iff.mp hsame
      rw [htp] at hbelow
      omega
  · cases hstep

/-- What a process step does to the state, with the transaction it applied if any. -/
theorem processStep_cases {state next : RelayState} {env : BatchEnv}
    (hstep : processStep cfg state env = some next) :
    next.position = state.position ∧ next.batch = [] ∧
      match (processBatch cfg env state.batch state.settle).applied with
      | none => next.committed = state.committed ∧ next.visible = state.visible
      | some transaction =>
        (next.committed = fun tp ↦ (transaction.offsets tp).getD (state.committed tp)) ∧
          next.visible = state.visible ++ transaction.outputs := by
  simp only [processStep] at hstep
  split at hstep
  · split at hstep
    · cases hstep
      simp
    · cases hstep
      simp
  · cases hstep

theorem processStep_not_applied {state next : RelayState} {env : BatchEnv}
    (hstep : processStep cfg state env = some next)
    (hnone : (processBatch cfg env state.batch state.settle).applied = none) :
    next.position = state.position ∧ next.batch = [] ∧ next.committed = state.committed ∧
      next.visible = state.visible := by
  simpa [hnone] using processStep_cases hstep

theorem processStep_applied {state next : RelayState} {env : BatchEnv} {transaction : Transaction}
    (hstep : processStep cfg state env = some next)
    (hsome : (processBatch cfg env state.batch state.settle).applied = some transaction) :
    next.position = state.position ∧ next.batch = [] ∧
      (∀ tp, next.committed tp = ((maxOffsets state.batch tp).map (· + 1)).getD
        (state.committed tp)) ∧
      ∀ cursor, next.visible.countP (·.isResultOf cursor) =
        state.visible.countP (·.isResultOf cursor) +
          (state.batch.map PendingRecord.cursor).count cursor := by
  obtain ⟨hposition, hbatch, hrest⟩ := processStep_cases hstep
  simp only [hsome] at hrest
  obtain ⟨hcount, hoffsets⟩ := processBatch_applied hsome
  refine ⟨hposition, hbatch, fun tp ↦ ?_, fun cursor ↦ ?_⟩
  · rw [hrest.1, hoffsets]
  · rw [hrest.2, List.countP_append, hcount]

/-- A record of the log that the batch holds, by its cursor. -/
theorem RelayInv.mem_batch {state : RelayState} (hinv : RelayInv log state) {tp : TopicPartition}
    {raw : RawRecord} (hmem : raw.cursor tp ∈ state.batch.map PendingRecord.cursor) :
    state.committed tp ≤ raw.offset ∧ raw.offset < state.position tp ∧
      ∃ record ∈ state.batch, record.topicPartition = tp ∧ record.cursor.offset = raw.offset := by
  obtain ⟨record, hrecord, hcursor⟩ := List.mem_map.mp hmem
  obtain ⟨found, -, hfound, hcommitted, hposition⟩ := hinv.held record hrecord
  obtain ⟨htp, hoffset⟩ := RawRecord.cursor_eq_iff.mp (hfound.symm.trans hcursor)
  rw [htp] at hcommitted hposition
  rw [hoffset] at hcommitted hposition
  exact ⟨hcommitted, hposition, record, hrecord, htp, by rw [hcursor]; rfl⟩

/-- The committed offset a transaction leaves behind: nothing of an untouched partition changes,
and a touched one ends right above its highest batch record. -/
theorem committed_after {state next : RelayState} {env : BatchEnv} {transaction : Transaction}
    (hstep : processStep cfg state env = some next)
    (hsome : (processBatch cfg env state.batch state.settle).applied = some transaction)
    (tp : TopicPartition) :
    (next.committed tp = state.committed tp ∧ ∀ record ∈ state.batch, record.topicPartition ≠ tp) ∨
      ∃ record ∈ state.batch, record.topicPartition = tp ∧
        next.committed tp = record.cursor.offset + 1 ∧
        ∀ other ∈ state.batch, other.topicPartition = tp →
          other.cursor.offset ≤ record.cursor.offset := by
  obtain ⟨-, -, hcommitted, -⟩ := processStep_applied hstep hsome
  have hmax := maxOffsets_spec state.batch tp
  cases hhighest : maxOffsets state.batch tp with
  | none =>
      simp only [hhighest] at hmax
      exact .inl ⟨by simp [hcommitted, hhighest], hmax⟩
  | some highest =>
      simp only [hhighest] at hmax
      obtain ⟨⟨record, hrecord, htp, hoffset⟩, hle⟩ := hmax
      refine .inr ⟨record, hrecord, htp, by simp [hcommitted, hhighest, hoffset], ?_⟩
      rw [hoffset]
      exact hle

/-- One applied transaction keeps the law exactly when it starts at the committed offsets. -/
theorem RelayInv.exactlyOnce_applied_iff {state next : RelayState} {env : BatchEnv}
    {transaction : Transaction} (hinv : RelayInv log state)
    (hstep : processStep cfg state env = some next)
    (hsome : (processBatch cfg env state.batch state.settle).applied = some transaction) :
    ExactlyOnce log next ↔ StartsAtCommitted log state := by
  obtain ⟨-, -, -, hvisible⟩ := processStep_applied hstep hsome
  constructor
  · intro hnext record hrecord raw hraw hcommitted hbelow
    -- a record left behind has no result, yet the committed offset moves past it
    by_contra hmissing
    have hcount := hnext _ raw hraw
    rw [hvisible, hinv.exactlyOnce _ raw hraw, List.count_eq_zero_of_not_mem hmissing,
      if_neg (by omega)] at hcount
    rcases committed_after hstep hsome record.topicPartition with
      ⟨-, huntouched⟩ | ⟨highest, -, -, hafter, hle⟩
    · exact huntouched record hrecord rfl
    · have := hle record hrecord rfl
      rw [if_pos (by omega)] at hcount
      omega
  · intro hstart tp raw hraw
    rw [hvisible, hinv.exactlyOnce tp raw hraw]
    by_cases hmem : raw.cursor tp ∈ state.batch.map PendingRecord.cursor
    · obtain ⟨hcommitted, -, held, hheld, htp, hoffset⟩ := hinv.mem_batch hmem
      rw [List.count_eq_one_of_mem hinv.distinct hmem, if_neg (by omega)]
      rcases committed_after hstep hsome tp with
        ⟨-, huntouched⟩ | ⟨highest, -, -, hafter, hle⟩
      · exact absurd htp (huntouched held hheld)
      · have := hle held hheld htp
        rw [if_pos (by omega)]
    · rw [List.count_eq_zero_of_not_mem hmem, Nat.add_zero]
      rcases committed_after hstep hsome tp with ⟨hsame, -⟩ | ⟨highest, hhighest, htp, hafter, -⟩
      · rw [hsame]
      · subst htp
        obtain ⟨found, -, hfound, hcommitted, -⟩ := hinv.held highest hhighest
        have hoffset : highest.cursor.offset = found.offset := by rw [hfound]; rfl
        have hne : raw.offset ≠ highest.cursor.offset := by
          intro heq
          apply hmem
          refine List.mem_map.mpr ⟨highest, hhighest, ?_⟩
          rw [hfound, RawRecord.cursor_eq_iff]
          exact ⟨rfl, by omega⟩
        have hle : state.committed highest.topicPartition ≤ raw.offset →
            highest.cursor.offset ≤ raw.offset := by
          intro hbelow
          by_contra hlt
          exact hmem (hstart highest hhighest raw hraw hbelow (by omega))
        split_ifs <;> omega

theorem RelayInv.process {state next : RelayState} {env : BatchEnv} (hinv : RelayInv log state)
    (hstart : StartsAtCommitted log state) (hstep : processStep cfg state env = some next) :
    RelayInv log next := by
  cases happlied : (processBatch cfg env state.batch state.settle).applied with
  | none =>
      obtain ⟨hposition, hbatch, hcommitted, hvisible⟩ := processStep_not_applied hstep happlied
      refine ⟨?_, ?_, by simp [hbatch], by simp [hbatch]⟩
      · intro tp raw hraw
        rw [hvisible, hcommitted]
        exact hinv.exactlyOnce tp raw hraw
      · rw [hposition, hcommitted]
        exact hinv.committed_le
  | some transaction =>
      obtain ⟨hposition, hbatch, -, -⟩ := processStep_applied hstep happlied
      refine ⟨(hinv.exactlyOnce_applied_iff hstep happlied).mpr hstart, fun tp ↦ ?_,
        by simp [hbatch], by simp [hbatch]⟩
      rw [hposition]
      rcases committed_after hstep happlied tp with ⟨hsame, -⟩ | ⟨highest, hhighest, rfl, hafter, -⟩
      · rw [hsame]
        exact hinv.committed_le tp
      · obtain ⟨found, -, hfound, -, hbelow⟩ := hinv.held highest hhighest
        have hoffset : highest.cursor.offset = found.offset := by rw [hfound]; rfl
        omega

theorem relayInv_reachable {state : RelayState}
    (reached : (relayMachine cfg log).Reachable (processesFromCommitted log) state) :
    RelayInv log state := by
  refine reached.invariant relayInv_init ?_
  intro state event next hinv hguard hstep
  cases event with
  | recv tp => exact hinv.recv hstep
  | process env => exact hinv.process hguard hstep
  | restart =>
      obtain rfl : restartStep cfg state = next := by simpa [relayMachine] using hstep
      exact hinv.restart

/-- Exactly once, as long as every transaction starts at the committed offsets of its partitions;
the first applied transaction that does not breaks it. -/
theorem relay_exactlyOnce (cfg : RelayCfg) (log : RawLog) :
    ∀ state, (relayMachine cfg log).Reachable (processesFromCommitted log) state →
      ExactlyOnce log state ∧
        ∀ env next, processStep cfg state env = some next →
          (processBatch cfg env state.batch state.settle).applied.isSome →
            (ExactlyOnce log next ↔ StartsAtCommitted log state) := by
  intro state reached
  have hinv := relayInv_reachable reached
  refine ⟨hinv.exactlyOnce, fun env next hstep happlied ↦ ?_⟩
  obtain ⟨transaction, hsome⟩ := Option.isSome_iff_exists.mp happlied
  exact hinv.exactlyOnce_applied_iff hstep hsome

/-! ## An aborted batch is skipped -/

/-- Two tombstones in one partition. -/
def twoTombstones : RawLog where
  records tp := if tp = ("raw", 0) then [⟨0, none, none, none⟩, ⟨1, none, none, none⟩] else []
  increasing tp := by
    by_cases htp : tp = ("raw", 0) <;> simp [htp]

/-- A batch is aborted, a fresh relay takes over, and both records are committed one by one. -/
theorem relay_exactlyOnce_after_restart :
    ∃ state, state.visible.length = 2 ∧ ExactlyOnce twoTombstones state := by
  exact ⟨_, rfl, (relay_exactlyOnce singleRecordCfg twoTombstones _ (Machine.reachableFrom_replay
    [.recv ("raw", 0), .process { healthyEnv with enqueue := fun _ ↦ false }, .restart,
      .recv ("raw", 0), .process healthyEnv, .recv ("raw", 0), .process healthyEnv] rfl)).1⟩

/-- The first record's enqueue fails and its batch is aborted; the next batch then commits past
it. -/
theorem relay_skips_aborted_batch :
    ∃ state, (relayMachine singleRecordCfg twoTombstones).Reachable Machine.always state ∧
      ¬ ExactlyOnce twoTombstones state := by
  refine ⟨_, Machine.reachableFrom_replay [.recv ("raw", 0),
    .process { healthyEnv with enqueue := fun _ ↦ false }, .recv ("raw", 0),
    .process healthyEnv] rfl, ?_⟩
  intro hlaw
  have hfirst := hlaw ("raw", 0) ⟨0, none, none, none⟩ (by simp [twoTombstones])
  revert hfirst
  decide

end Deblob.Kafka
