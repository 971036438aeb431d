import Deblob.Kafka.Settle
import Deblob.Lib.TransitionSystem
import Mathlib.Data.List.Induction

/-!
# Runs of settle-and-sample

The calls of many sources are interleaved. For each source a decision to classify is answered by one
classification, and all that the counters of the source stand for can be read from the log of its
own calls.
-/

namespace Deblob.Kafka

open Core Lib

inductive SettleCall where
  | before (source : String)
  | after (source : String) (known : Option SchemaId)

def SettleCall.source : SettleCall → String
  | .before source => source
  | .after source _ => source

inductive SettleEvent where
  | decided (source : String) (decision : SettleDecision)
  | classified (source : String) (known : Option SchemaId)

def SettleEvent.source : SettleEvent → String
  | .decided source _ => source
  | .classified source _ => source

@[simp]
theorem SettleEvent.source_decided (source : String) (decision : SettleDecision) :
    (SettleEvent.decided source decision).source = source := rfl

@[simp]
theorem SettleEvent.source_classified (source : String) (known : Option SchemaId) :
    (SettleEvent.classified source known).source = source := rfl

/-- The counters, the sources that wait for a classification with their flags, and the log. -/
structure SettleTrace where
  state : SettleState
  waiting : String → Option Bool
  log : List SettleEvent

namespace SettleTrace

def new (cfg : SettleCfg) : SettleTrace := ⟨.new cfg, fun _ ↦ none, []⟩

/-- A source that is to be classified waits for the classification. -/
def waitingAfter (waiting : String → Option Bool) (source : String) :
    SettleDecision → String → Option Bool
  | .fastPath _ => waiting
  | .classify driftCheck => Function.update waiting source (some driftCheck)

theorem waitingAfter_of_ne {waiting : String → Option Bool} {source other : String}
    (hne : other ≠ source) (decision : SettleDecision) :
    waitingAfter waiting source decision other = waiting other := by
  cases decision with
  | fastPath id => rfl
  | classify driftCheck => exact Function.update_of_ne hne ..

def asked (trace : SettleTrace) (source : String) : SettleTrace where
  state := (trace.state.before source).2
  waiting := waitingAfter trace.waiting source (trace.state.before source).1
  log := trace.log ++ [.decided source (trace.state.before source).1]

def answered (trace : SettleTrace) (source : String) (known : Option SchemaId)
    (driftCheck : Bool) : SettleTrace where
  state := trace.state.after source known driftCheck
  waiting := Function.update trace.waiting source none
  log := trace.log ++ [.classified source known]

/-- A source that waits is not asked again, and one that does not wait is not classified. -/
def step (trace : SettleTrace) : SettleCall → Option SettleTrace
  | .before source =>
    match trace.waiting source with
    | some _ => none
    | none => some (trace.asked source)
  | .after source known => (trace.waiting source).map (trace.answered source known)

theorem step_cases {trace next : SettleTrace} {call : SettleCall}
    (hstep : trace.step call = some next) :
    (∃ source, call = .before source ∧ trace.waiting source = none ∧
      next = trace.asked source) ∨
    ∃ source known driftCheck, call = .after source known ∧
      trace.waiting source = some driftCheck ∧ next = trace.answered source known driftCheck := by
  cases call with
  | before source =>
      cases hwaiting : trace.waiting source with
      | some driftCheck => simp [step, hwaiting] at hstep
      | none => exact .inl ⟨source, rfl, hwaiting, by simpa [step, hwaiting] using hstep.symm⟩
  | after source known =>
      rcases Option.map_eq_some_iff.mp hstep with ⟨driftCheck, hwaiting, hnext⟩
      exact .inr ⟨source, known, driftCheck, rfl, hwaiting, hnext.symm⟩

end SettleTrace

def settleMachine (cfg : SettleCfg) : Machine SettleTrace SettleCall := ⟨.new cfg, SettleTrace.step⟩

/-- The trace of a list of calls, if they follow the protocol. -/
def runCalls (cfg : SettleCfg) (calls : List SettleCall) : Option SettleTrace :=
  (settleMachine cfg).replay Machine.always (settleMachine cfg).init calls

/-! ## What a log says of a source -/

/-- The classifications of a source in their order. -/
def classifications (log : List SettleEvent) (source : String) : List (Option SchemaId) :=
  log.filterMap fun
    | .classified other known => if other = source then some known else none
    | .decided _ _ => none

/-- How many of the last classifications were to the schema. -/
def runLength (id : SchemaId) (results : List (Option SchemaId)) : ℕ :=
  (results.reverse.takeWhile (· = some id)).length

def isFastPath (source : String) : SettleEvent → Bool
  | .decided other (.fastPath _) => other = source
  | _ => false

theorem isFastPath_of_ne {source other : String} (hne : other ≠ source)
    (decision : SettleDecision) : isFastPath source (.decided other decision) = false := by
  cases decision with
  | fastPath id => exact decide_eq_false hne
  | classify driftCheck => rfl

def fastPaths (log : List SettleEvent) (source : String) : ℕ := log.countP (isFastPath source)

/-- The records of the source that were fast-pathed since its last classification. -/
def fastSince (log : List SettleEvent) (source : String) : ℕ :=
  log.foldl (fun count event ↦
    match event with
    | .classified other _ => if other = source then 0 else count
    | .decided _ _ => if isFastPath source event then count + 1 else count) 0

@[simp]
theorem runLength_concat (id : SchemaId) (results : List (Option SchemaId))
    (known : Option SchemaId) :
    runLength id (results ++ [known]) = if known = some id then runLength id results + 1 else 0 := by
  rw [runLength, List.reverse_append, List.reverse_singleton, List.singleton_append,
    List.takeWhile_cons]
  split_ifs <;> simp_all [runLength]

/-- A schema that was not the last one has no run. -/
theorem runLength_eq_zero {id : SchemaId} {results : List (Option SchemaId)}
    (hlast : results.getLast?.join ≠ some id) : runLength id results = 0 := by
  induction results using List.reverseRecOn with
  | nil => rfl
  | append_singleton results known _ =>
      rw [List.getLast?_concat, Option.join_some] at hlast
      rw [runLength_concat, if_neg hlast]

theorem classifications_append (left right : List SettleEvent) (source : String) :
    classifications (left ++ right) source =
      classifications left source ++ classifications right source :=
  List.filterMap_append

@[simp]
theorem classifications_decided (log : List SettleEvent) (source other : String)
    (decision : SettleDecision) :
    classifications (log ++ [.decided other decision]) source = classifications log source := by
  simp [classifications]

@[simp]
theorem classifications_classified (log : List SettleEvent) (source other : String)
    (known : Option SchemaId) :
    classifications (log ++ [.classified other known]) source =
      if other = source then classifications log source ++ [known]
      else classifications log source := by
  rw [classifications_append]
  by_cases hsource : other = source <;> simp [classifications, hsource]

/-- The events of other sources classify nothing of this one. -/
theorem classifications_eq_nil {log : List SettleEvent} {source : String}
    (hother : ∀ event ∈ log, event.source ≠ source) : classifications log source = [] := by
  rw [classifications, List.filterMap_eq_nil_iff]
  intro event hevent
  cases event with
  | decided other decision => rfl
  | classified other known => exact if_neg (hother _ hevent)

@[simp]
theorem fastSince_decided (log : List SettleEvent) (source other : String)
    (decision : SettleDecision) :
    fastSince (log ++ [.decided other decision]) source =
      if isFastPath source (.decided other decision) then fastSince log source + 1
      else fastSince log source := by
  simp [fastSince]

@[simp]
theorem fastSince_classified (log : List SettleEvent) (source other : String)
    (known : Option SchemaId) :
    fastSince (log ++ [.classified other known]) source =
      if other = source then 0 else fastSince log source := by
  simp [fastSince]

/-- The events of other sources do not count. -/
theorem fastSince_append_of_ne {log rest : List SettleEvent} {source : String}
    (hother : ∀ event ∈ rest, event.source ≠ source) :
    fastSince (log ++ rest) source = fastSince log source := by
  induction rest using List.reverseRecOn with
  | nil => rw [List.append_nil]
  | append_singleton rest event ih =>
      have hevent := hother event (List.mem_append_right _ (List.mem_singleton_self event))
      have hrest := ih fun other hmem ↦ hother other (List.mem_append_left _ hmem)
      rw [← List.append_assoc]
      cases event with
      | decided other decision =>
          have hne : other ≠ source := hevent
          rw [fastSince_decided, isFastPath_of_ne hne, if_neg Bool.false_ne_true, hrest]
      | classified other known =>
          have hne : other ≠ source := hevent
          rw [fastSince_classified, if_neg hne, hrest]

/-- Without a classification among them, all the last fast paths count. -/
theorem fastPaths_le_fastSince {earlier segment : List SettleEvent} {source : String}
    (hnone : classifications segment source = []) :
    fastPaths segment source ≤ fastSince (earlier ++ segment) source := by
  induction segment using List.reverseRecOn with
  | nil => exact Nat.zero_le _
  | append_singleton segment event ih =>
      rw [← List.append_assoc, fastPaths, List.countP_append]
      cases event with
      | decided other decision =>
          rw [classifications_decided] at hnone
          have hle := ih hnone
          rw [fastPaths] at hle
          rw [fastSince_decided, List.countP_singleton]
          split_ifs <;> omega
      | classified other known =>
          rw [classifications_classified] at hnone
          split_ifs at hnone with hsource
          · exact absurd hnone (by simp)
          · have hle := ih hnone
            rw [fastSince_classified, if_neg hsource]
            simpa [fastPaths, isFastPath] using hle

/-! ## What a call does to the counters -/

/-- The feature is on for the source. -/
def SettleCfg.settles (cfg : SettleCfg) (source : String) : Bool :=
  cfg.enabled && decide (1 < cfg.sampleRate) && cfg.sources.contains source

theorem SettleCfg.settles_iff (cfg : SettleCfg) {source : String} :
    cfg.settles source = true ↔ cfg.enabled = true ∧ 1 < cfg.sampleRate ∧ source ∈ cfg.sources := by
  simp [SettleCfg.settles, and_assoc]

namespace SettleState

variable {state : SettleState} {source other : String} {id : SchemaId}

@[simp]
theorem set_perSource_self (entry : SourceSettle) :
    (state.set source entry).perSource source = entry :=
  Function.update_self ..

theorem set_perSource_of_ne (hne : other ≠ source) (entry : SourceSettle) :
    (state.set source entry).perSource other = state.perSource other :=
  Function.update_of_ne hne ..

/-- What is decided, and what is counted with it. -/
theorem before_cases (state : SettleState) (source : String) :
    (state.before source = (.classify false, state) ∧
      (state.cfg.settles source = true → (state.perSource source).settled = false)) ∨
    (state.cfg.settles source = true ∧ (state.perSource source).settled = true ∧
      ((state.cfg.sampleRate ≤ (state.perSource source).sinceSample + 1 ∧
        state.before source = (.classify true,
          state.set source { state.perSource source with sinceSample := 0 })) ∨
      ((state.perSource source).sinceSample + 1 < state.cfg.sampleRate ∧
        state.before source = ((match (state.perSource source).known with
            | some id => .fastPath id
            | none => .classify false),
          state.set source { state.perSource source with
            sinceSample := (state.perSource source).sinceSample + 1 })))) := by
  have hactive : state.active source = state.cfg.settles source := rfl
  cases hsettles : state.cfg.settles source with
  | false => simp [before, hactive, hsettles]
  | true =>
      cases hsettled : (state.perSource source).settled with
      | false => simp [before, hactive, hsettles, hsettled]
      | true =>
          refine .inr ⟨rfl, rfl, ?_⟩
          rcases le_or_gt state.cfg.sampleRate ((state.perSource source).sinceSample + 1)
            with hdue | hearly
          · exact .inl ⟨hdue, by simp [before, hactive, hsettles, hsettled, hdue]⟩
          · refine .inr ⟨hearly, ?_⟩
            cases hknown : (state.perSource source).known <;>
              simp [before, hactive, hsettles, hsettled, not_le.mpr hearly, hknown]

theorem before_unsettled (hentry : (state.perSource source).settled = false) :
    state.before source = (.classify false, state) := by
  rcases before_cases state source with ⟨hbefore, -⟩ | ⟨-, hsettled, -⟩
  · exact hbefore
  · exact absurd (hsettled.symm.trans hentry) (by decide)

theorem after_inactive (hsettles : state.cfg.settles source = false) (known : Option SchemaId)
    (driftCheck : Bool) : state.after source known driftCheck = state := by
  have hactive : state.active source = false := hsettles
  simp [after, hactive]

theorem after_miss (hsettles : state.cfg.settles source = true) (driftCheck : Bool) :
    state.after source none driftCheck = state.set source ⟨none, 0, false, 0⟩ := by
  have hactive : state.active source = true := hsettles
  simp [after, hactive]

theorem after_other (hsettles : state.cfg.settles source = true)
    (hknown : (state.perSource source).known ≠ some id) (driftCheck : Bool) :
    state.after source (some id) driftCheck = state.set source ⟨some id, 1, false, 0⟩ := by
  have hactive : state.active source = true := hsettles
  simp [after, hactive, hknown]

theorem after_same (hsettles : state.cfg.settles source = true)
    (hknown : (state.perSource source).known = some id) :
    state.after source (some id) false = state.set source { state.perSource source with
      consecutive := (state.perSource source).consecutive + 1
      settled := (state.perSource source).settled ||
        decide ((state.perSource source).consecutive + 1 ≥ state.cfg.settleAfter) } := by
  have hactive : state.active source = true := hsettles
  simp [after, hactive, hknown]

theorem after_reconfirmed (hsettles : state.cfg.settles source = true)
    (hknown : (state.perSource source).known = some id) :
    state.after source (some id) true = state.set source { state.perSource source with
      consecutive := min ((state.perSource source).consecutive + 1) (2 ^ 32 - 1) } := by
  have hactive : state.active source = true := hsettles
  simp [after, hactive, hknown]

/-- A decision is about its source only. -/
theorem before_frame (state : SettleState) (source : String) :
    (state.before source).2.cfg = state.cfg ∧
      ∀ other, other ≠ source → (state.before source).2.perSource other = state.perSource other := by
  rcases before_cases state source with ⟨hbefore, -⟩ | ⟨-, -, ⟨-, hbefore⟩ | ⟨-, hbefore⟩⟩ <;>
    rw [hbefore]
  · exact ⟨rfl, fun _ _ ↦ rfl⟩
  · exact ⟨rfl, fun _ hne ↦ set_perSource_of_ne hne _⟩
  · exact ⟨rfl, fun _ hne ↦ set_perSource_of_ne hne _⟩

/-- A classification either leaves the state, or sets the entry of its source. -/
theorem after_frame (state : SettleState) (source : String) (known : Option SchemaId)
    (driftCheck : Bool) :
    (state.after source known driftCheck).cfg = state.cfg ∧ ∀ other, other ≠ source →
      (state.after source known driftCheck).perSource other = state.perSource other := by
  have hset (entry : SourceSettle) : (state.set source entry).cfg = state.cfg ∧
      ∀ other, other ≠ source → (state.set source entry).perSource other = state.perSource other :=
    ⟨rfl, fun _ hne ↦ set_perSource_of_ne hne entry⟩
  cases hsettles : state.cfg.settles source with
  | false =>
      rw [after_inactive hsettles]
      exact ⟨rfl, fun _ _ ↦ rfl⟩
  | true =>
      cases known with
      | none =>
          rw [after_miss hsettles]
          exact hset _
      | some id =>
          by_cases hknown : (state.perSource source).known = some id
          · cases driftCheck with
            | false =>
                rw [after_same hsettles hknown]
                exact hset _
            | true =>
                rw [after_reconfirmed hsettles hknown]
                exact hset _
          · rw [after_other hsettles hknown]
            exact hset _

end SettleState

/-! ## Counters and history -/

/-- What the counters of a source say of its log. `fast` counts the records that were fast-pathed
since the last classification. -/
structure SourceInv (cfg : SettleCfg) (entry : SourceSettle) (waiting : Option Bool)
    (results : List (Option SchemaId)) (fast : ℕ) : Prop where
  known : entry.known = results.getLast?.join
  settled : entry.settled = true →
    ∃ id, entry.known = some id ∧ cfg.settleAfter ≤ runLength id results
  unsettled : entry.settled = false → entry.sinceSample = 0 ∧ ∀ id, entry.known = some id →
    entry.consecutive = runLength id results ∧ entry.consecutive < max cfg.settleAfter 2
  asked : ∀ driftCheck, waiting = some driftCheck →
    driftCheck = entry.settled ∧ entry.sinceSample = 0
  counted : waiting = none → entry.settled = true → entry.sinceSample = fast
  bounded : fast ≤ cfg.sampleRate - 1

namespace SourceInv

variable {cfg : SettleCfg} {entry : SourceSettle} {results : List (Option SchemaId)} {fast : ℕ}

theorem initial (cfg : SettleCfg) : SourceInv cfg {} none [] 0 where
  known := rfl
  settled := nofun
  unsettled _ := ⟨rfl, nofun⟩
  asked := nofun
  counted := nofun
  bounded := Nat.zero_le _

/-- A source that is not settled is classified. -/
theorem asked_unsettled (hinv : SourceInv cfg entry none results fast)
    (hsettled : entry.settled = false) : SourceInv cfg entry (some false) results fast where
  known := hinv.known
  settled := hinv.settled
  unsettled := hinv.unsettled
  asked _ hdrift := ⟨by rw [hsettled, ← Option.some.inj hdrift], (hinv.unsettled hsettled).1⟩
  counted := nofun
  bounded := hinv.bounded

/-- A settled source has its drift check. -/
theorem asked_settled (hinv : SourceInv cfg entry none results fast)
    (hsettled : entry.settled = true) :
    SourceInv cfg { entry with sinceSample := 0 } (some true) results fast where
  known := hinv.known
  settled := hinv.settled
  unsettled hunsettled := absurd (hsettled.symm.trans hunsettled) (by decide)
  asked _ hdrift := ⟨by rw [hsettled, ← Option.some.inj hdrift], rfl⟩
  counted := nofun
  bounded := hinv.bounded

/-- A settled source has a record fast-pathed. -/
theorem fastPathed (hinv : SourceInv cfg entry none results fast) (hsettled : entry.settled = true)
    (hearly : entry.sinceSample + 1 < cfg.sampleRate) :
    SourceInv cfg { entry with sinceSample := entry.sinceSample + 1 } none results (fast + 1) where
  known := hinv.known
  settled := hinv.settled
  unsettled hunsettled := absurd (hsettled.symm.trans hunsettled) (by decide)
  asked := nofun
  counted _ _ := congrArg (· + 1) (hinv.counted rfl hsettled)
  bounded := by
    have hcounted := hinv.counted rfl hsettled
    omega

/-- A miss unsettles the source. -/
theorem missed (cfg : SettleCfg) (results : List (Option SchemaId)) :
    SourceInv cfg ⟨none, 0, false, 0⟩ none (results ++ [none]) 0 where
  known := by rw [List.getLast?_concat]; rfl
  settled := nofun
  unsettled _ := ⟨rfl, nofun⟩
  asked := nofun
  counted := nofun
  bounded := Nat.zero_le _

/-- Another schema starts a run of its own. -/
theorem changed {waiting : Option Bool} (hinv : SourceInv cfg entry waiting results fast)
    {id : SchemaId} (hknown : entry.known ≠ some id) :
    SourceInv cfg ⟨some id, 1, false, 0⟩ none (results ++ [some id]) 0 where
  known := by rw [List.getLast?_concat]; rfl
  settled := nofun
  unsettled _ := by
    refine ⟨rfl, ?_⟩
    rintro _ ⟨⟩
    rw [runLength_concat, if_pos rfl, runLength_eq_zero (hinv.known ▸ hknown)]
    exact ⟨rfl, Nat.one_lt_two.trans_le (le_max_right _ _)⟩
  asked := nofun
  counted := nofun
  bounded := Nat.zero_le _

/-- The same schema makes the run longer, and settles the source when it is long enough. -/
theorem continued (hinv : SourceInv cfg entry (some false) results fast) {id : SchemaId}
    (hknown : entry.known = some id) :
    SourceInv cfg { entry with
        consecutive := entry.consecutive + 1
        settled := entry.settled || decide (entry.consecutive + 1 ≥ cfg.settleAfter) }
      none (results ++ [some id]) 0 := by
  have hunsettled : entry.settled = false := (hinv.asked false rfl).1.symm
  rcases hinv.unsettled hunsettled with ⟨hsince, hrun⟩
  have hlength := (hrun id hknown).1
  have hnext : runLength id (results ++ [some id]) = entry.consecutive + 1 := by
    rw [runLength_concat, if_pos rfl, hlength]
  refine ⟨?_, ?_, ?_, nofun, fun _ _ ↦ hsince, Nat.zero_le _⟩
  · rw [List.getLast?_concat]
    exact hknown
  · intro hsettled
    rw [hunsettled, Bool.false_or, decide_eq_true_eq] at hsettled
    exact ⟨id, hknown, hnext ▸ hsettled⟩
  · intro hstill
    rw [hunsettled, Bool.false_or, decide_eq_false_iff_not, not_le] at hstill
    refine ⟨hsince, fun other hother ↦ ?_⟩
    have hsame : id = other := Option.some.inj (hknown.symm.trans hother)
    subst hsame
    exact ⟨hnext.symm, hstill.trans_le (le_max_left _ _)⟩

/-- A drift check that finds the same schema keeps the source settled. -/
theorem reconfirmed (hinv : SourceInv cfg entry (some true) results fast) {id : SchemaId}
    (hknown : entry.known = some id) (consecutive : ℕ) :
    SourceInv cfg { entry with consecutive := consecutive } none (results ++ [some id]) 0 := by
  have hsettled : entry.settled = true := (hinv.asked true rfl).1.symm
  refine ⟨?_, ?_, ?_, nofun, fun _ _ ↦ (hinv.asked true rfl).2, Nat.zero_le _⟩
  · rw [List.getLast?_concat]
    exact hknown
  · intro _
    rcases hinv.settled hsettled with ⟨other, hother, hlength⟩
    have hsame : id = other := Option.some.inj (hknown.symm.trans hother)
    subst hsame
    refine ⟨id, hknown, hlength.trans ?_⟩
    rw [runLength_concat, if_pos rfl]
    exact Nat.le_succ _
  · intro hunsettled
    exact absurd (hsettled.symm.trans hunsettled) (by decide)

end SourceInv

/-- The counters of every source stand for its part of the log. -/
structure TraceInv (cfg : SettleCfg) (trace : SettleTrace) : Prop where
  cfg_eq : trace.state.cfg = cfg
  source : ∀ source, cfg.settles source = true →
    SourceInv cfg (trace.state.perSource source) (trace.waiting source)
      (classifications trace.log source) (fastSince trace.log source)
  inactive : ∀ source, cfg.settles source = false → fastSince trace.log source = 0

namespace TraceInv

variable {cfg : SettleCfg} {trace next : SettleTrace}

theorem initial (cfg : SettleCfg) : TraceInv cfg (.new cfg) :=
  ⟨rfl, fun _ _ ↦ SourceInv.initial cfg, fun _ _ ↦ rfl⟩

/-- What is decided for a source whose counters are in order. -/
theorem before_cases (hinv : TraceInv cfg trace) {source : String}
    (hsettles : cfg.settles source = true) :
    ((trace.state.perSource source).settled = false ∧
      trace.state.before source = (.classify false, trace.state)) ∨
    ((trace.state.perSource source).settled = true ∧
      cfg.sampleRate ≤ (trace.state.perSource source).sinceSample + 1 ∧
      trace.state.before source = (.classify true, trace.state.set source
        { trace.state.perSource source with sinceSample := 0 })) ∨
    ∃ id, (trace.state.perSource source).settled = true ∧
      (trace.state.perSource source).known = some id ∧
      (trace.state.perSource source).sinceSample + 1 < cfg.sampleRate ∧
      trace.state.before source = (.fastPath id, trace.state.set source
        { trace.state.perSource source with
          sinceSample := (trace.state.perSource source).sinceSample + 1 }) := by
  have hcases := SettleState.before_cases trace.state source
  rw [hinv.cfg_eq] at hcases
  rcases hcases with ⟨hbefore, hunsettled⟩ | ⟨-, hsettled, ⟨hdue, hbefore⟩ | ⟨hearly, hbefore⟩⟩
  · exact .inl ⟨hunsettled hsettles, hbefore⟩
  · exact .inr (.inl ⟨hsettled, hdue, hbefore⟩)
  · rcases (hinv.source source hsettles).settled hsettled with ⟨id, hknown, -⟩
    rw [hknown] at hbefore
    exact .inr (.inr ⟨id, hsettled, hknown, hearly, hbefore⟩)

theorem before_inactive (hinv : TraceInv cfg trace) {source : String}
    (hsettles : cfg.settles source = false) :
    trace.state.before source = (.classify false, trace.state) := by
  have hcases := SettleState.before_cases trace.state source
  rw [hinv.cfg_eq, hsettles] at hcases
  rcases hcases with ⟨hbefore, -⟩ | ⟨hactive, -⟩
  · exact hbefore
  · exact absurd hactive (by decide)

/-- A decision keeps the counters in order. -/
theorem before_step (hinv : TraceInv cfg trace) {source : String}
    (hwaiting : trace.waiting source = none) :
    TraceInv cfg (trace.asked source) := by
  have hframe := SettleState.before_frame trace.state source
  refine ⟨hframe.1.trans hinv.cfg_eq, ?_, ?_⟩
  · intro other hsettles
    dsimp only [SettleTrace.asked]
    rw [classifications_decided, fastSince_decided]
    by_cases hother : other = source
    · subst hother
      have hentry := hinv.source other hsettles
      rw [hwaiting] at hentry
      rcases hinv.before_cases hsettles with
        ⟨hsettled, hbefore⟩ | ⟨hsettled, hdue, hbefore⟩ | ⟨id, hsettled, hknown, hearly, hbefore⟩
      · simpa [hbefore, SettleTrace.waitingAfter, isFastPath] using hentry.asked_unsettled hsettled
      · simpa [hbefore, SettleTrace.waitingAfter, isFastPath] using hentry.asked_settled hsettled
      · simpa [hbefore, SettleTrace.waitingAfter, isFastPath, hwaiting] using
          hentry.fastPathed hsettled hearly
    · rw [isFastPath_of_ne (Ne.symm hother), if_neg Bool.false_ne_true, hframe.2 other hother,
        SettleTrace.waitingAfter_of_ne hother]
      exact hinv.source other hsettles
  · intro other hsettles
    rw [SettleTrace.asked, fastSince_decided]
    by_cases hother : other = source
    · subst hother
      rw [hinv.before_inactive hsettles]
      exact hinv.inactive other hsettles
    · rw [isFastPath_of_ne (Ne.symm hother), if_neg Bool.false_ne_true]
      exact hinv.inactive other hsettles

/-- A classification keeps the counters in order. -/
theorem after_step (hinv : TraceInv cfg trace) {source : String} {driftCheck : Bool}
    (hwaiting : trace.waiting source = some driftCheck) (known : Option SchemaId) :
    TraceInv cfg (trace.answered source known driftCheck) := by
  have hframe := SettleState.after_frame trace.state source known driftCheck
  refine ⟨hframe.1.trans hinv.cfg_eq, ?_, ?_⟩
  · intro other hsettles
    dsimp only [SettleTrace.answered]
    rw [classifications_classified, fastSince_classified]
    by_cases hother : other = source
    · subst hother
      rw [if_pos rfl, if_pos rfl, Function.update_self]
      have hentry := hinv.source other hsettles
      have hactive : trace.state.cfg.settles other = true := by rw [hinv.cfg_eq, hsettles]
      cases known with
      | none =>
          rw [SettleState.after_miss hactive, SettleState.set_perSource_self]
          exact SourceInv.missed cfg _
      | some id =>
          by_cases hknown : (trace.state.perSource other).known = some id
          · rw [hwaiting] at hentry
            cases driftCheck with
            | false =>
                rw [SettleState.after_same hactive hknown, SettleState.set_perSource_self,
                  hinv.cfg_eq]
                exact hentry.continued hknown
            | true =>
                rw [SettleState.after_reconfirmed hactive hknown, SettleState.set_perSource_self]
                exact hentry.reconfirmed hknown _
          · rw [SettleState.after_other hactive hknown, SettleState.set_perSource_self]
            exact hentry.changed hknown
    · rw [if_neg (Ne.symm hother), if_neg (Ne.symm hother), hframe.2 other hother,
        Function.update_of_ne hother]
      exact hinv.source other hsettles
  · intro other hsettles
    rw [SettleTrace.answered, fastSince_classified, hinv.inactive other hsettles]
    exact ite_self 0

theorem step (hinv : TraceInv cfg trace) {call : SettleCall}
    (hstep : trace.step call = some next) : TraceInv cfg next := by
  rcases SettleTrace.step_cases hstep with
    ⟨source, -, hwaiting, rfl⟩ | ⟨source, known, driftCheck, -, hwaiting, rfl⟩
  · exact hinv.before_step hwaiting
  · exact hinv.after_step hwaiting known

end TraceInv

/-! ## The law of a run -/

/-- A record is fast-pathed only for an enabled source, to the schema of its last classification and
after enough of them in a row. -/
def FastPathsSafe (cfg : SettleCfg) (log : List SettleEvent) : Prop :=
  ∀ earlier source id later, log = earlier ++ .decided source (.fastPath id) :: later →
    cfg.enabled = true ∧ source ∈ cfg.sources ∧
      (classifications earlier source).getLast? = some (some id) ∧
      cfg.settleAfter ≤ runLength id (classifications earlier source)

/-- The first record behind a classification that makes a run long enough is fast-pathed. -/
def FastPathsPrompt (cfg : SettleCfg) (log : List SettleEvent) : Prop :=
  ∀ earlier source id between decision later,
    cfg.enabled = true → source ∈ cfg.sources → 1 < cfg.sampleRate →
    log = earlier ++ [.classified source (some id)] ++ between ++
      .decided source decision :: later →
    (∀ event ∈ between, event.source ≠ source) →
    max cfg.settleAfter 1 ≤
      runLength id (classifications (earlier ++ [.classified source (some id)]) source) →
    decision = .fastPath id

/-- No stretch without a classification of the source has more fast paths than fit between two
samples. -/
def FastPathsBounded (cfg : SettleCfg) (log : List SettleEvent) : Prop :=
  ∀ earlier segment later source, log = earlier ++ segment ++ later →
    classifications segment source = [] → fastPaths segment source ≤ cfg.sampleRate - 1

/-- The calls of one source alone have the same log. -/
def SourceIndependent (cfg : SettleCfg) (calls : List SettleCall) (log : List SettleEvent) : Prop :=
  ∀ source, ∃ alone, runCalls cfg (calls.filter (·.source = source)) = some alone ∧
    alone.log = log.filter (·.source = source)

structure SettleLaw (cfg : SettleCfg) (calls : List SettleCall) (log : List SettleEvent) :
    Prop where
  safe : FastPathsSafe cfg log
  prompt : FastPathsPrompt cfg log
  bounded : FastPathsBounded cfg log
  independent : SourceIndependent cfg calls log

theorem exists_event {trace next : SettleTrace} {call : SettleCall}
    (hstep : trace.step call = some next) : ∃ event, next.log = trace.log ++ [event] := by
  rcases SettleTrace.step_cases hstep with
    ⟨source, -, -, rfl⟩ | ⟨source, known, driftCheck, -, -, rfl⟩
  · exact ⟨_, rfl⟩
  · exact ⟨_, rfl⟩

/-- A logged decision is that of the counters, for a source that does not wait. -/
theorem eq_of_decided {trace next : SettleTrace} {call : SettleCall} {source : String}
    {decision : SettleDecision} (hstep : trace.step call = some next)
    (hlog : next.log = trace.log ++ [.decided source decision]) :
    trace.waiting source = none ∧ (trace.state.before source).1 = decision := by
  rcases SettleTrace.step_cases hstep with
    ⟨other, -, hwaiting, rfl⟩ | ⟨other, known, driftCheck, -, -, rfl⟩
  · cases List.singleton_inj.mp (List.append_cancel_left hlog)
    exact ⟨hwaiting, rfl⟩
  · cases List.singleton_inj.mp (List.append_cancel_left hlog)

section

variable {cfg : SettleCfg} {trace : SettleTrace}
  (hreached : (settleMachine cfg).Reachable Machine.always trace)

include hreached

theorem traceInv : TraceInv cfg trace :=
  hreached.invariant (TraceInv.initial cfg) fun _ _ _ hinv _ hstep ↦ hinv.step hstep

/-- Every part of a log was the log at that time, in which its next event happened. -/
theorem exists_earlier {earlier later : List SettleEvent} (hlog : trace.log = earlier ++ later) :
    ∃ before, TraceInv cfg before ∧ before.log = earlier ∧
      ∀ event rest, later = event :: rest →
        ∃ call next, before.step call = some next ∧ next.log = earlier ++ [event] := by
  induction hreached generalizing later with
  | refl =>
      rcases List.nil_eq_append_iff.mp hlog with ⟨rfl, rfl⟩
      exact ⟨.new cfg, TraceInv.initial cfg, rfl, nofun⟩
  | @step state next call hstate _ htaken ih =>
      rcases exists_event htaken with ⟨last, hlast⟩
      rw [hlast] at hlog
      cases later using List.reverseRecOn with
      | nil =>
          rw [List.append_nil] at hlog
          exact ⟨next, (traceInv hstate).step htaken, hlast.trans hlog, nofun⟩
      | append_singleton later event =>
          rw [← List.append_assoc] at hlog
          rcases List.append_inj' hlog rfl with ⟨hstateLog, hevent⟩
          cases hevent
          cases later with
          | nil =>
              rw [List.append_nil] at hstateLog
              refine ⟨state, traceInv hstate, hstateLog, ?_⟩
              rintro event rest ⟨⟩
              exact ⟨call, next, htaken, hstateLog ▸ hlast⟩
          | cons head later =>
              rcases ih hstateLog with ⟨before, hinv, hbefore, hhead⟩
              refine ⟨before, hinv, hbefore, ?_⟩
              rintro event rest ⟨⟩
              exact hhead head later rfl

/-- At a logged decision the counters were in order. -/
theorem exists_deciding {earlier later : List SettleEvent} {source : String}
    {decision : SettleDecision}
    (hlog : trace.log = earlier ++ .decided source decision :: later) :
    ∃ before, TraceInv cfg before ∧ before.log = earlier ∧ before.waiting source = none ∧
      (before.state.before source).1 = decision := by
  rcases exists_earlier hreached hlog with ⟨before, hinv, rfl, hhead⟩
  rcases hhead _ _ rfl with ⟨call, next, hstep, hnext⟩
  rcases eq_of_decided hstep hnext with ⟨hwaiting, hdecision⟩
  exact ⟨before, hinv, rfl, hwaiting, hdecision⟩

theorem fastPathsSafe : FastPathsSafe cfg trace.log := by
  intro earlier source id later hlog
  rcases exists_deciding hreached hlog with ⟨before, hinv, rfl, hwaiting, hdecision⟩
  cases hsettles : cfg.settles source with
  | false =>
      rw [hinv.before_inactive hsettles] at hdecision
      cases hdecision
  | true =>
      rcases hinv.before_cases hsettles with
        ⟨-, hbefore⟩ | ⟨-, -, hbefore⟩ | ⟨other, hsettled, hknown, -, hbefore⟩
      · rw [hbefore] at hdecision
        cases hdecision
      · rw [hbefore] at hdecision
        cases hdecision
      · rw [hbefore] at hdecision
        cases hdecision
        have hsource := hinv.source source hsettles
        rcases hsource.settled hsettled with ⟨other, hother, hlength⟩
        cases hknown.symm.trans hother
        have hlast := hsource.known.symm.trans hknown
        rcases cfg.settles_iff.mp hsettles with ⟨henabled, -, hmem⟩
        exact ⟨henabled, hmem, Option.join_eq_some_iff.mp hlast, hlength⟩

theorem fastPathsPrompt (hsettle : 2 ≤ cfg.settleAfter) : FastPathsPrompt cfg trace.log := by
  intro earlier source id between decision later henabled hmem hrate hlog hbetween hlong
  rcases exists_deciding hreached hlog with ⟨before, hinv, hbefore, hwaiting, hdecision⟩
  have hsettles : cfg.settles source = true := cfg.settles_iff.mpr ⟨henabled, hrate, hmem⟩
  have hsource := hinv.source source hsettles
  have hresults : classifications before.log source =
      classifications (earlier ++ [.classified source (some id)]) source := by
    rw [hbefore, classifications_append, classifications_eq_nil hbetween, List.append_nil]
  have hfast : fastSince before.log source = 0 := by
    rw [hbefore, fastSince_append_of_ne hbetween, fastSince_classified, if_pos rfl]
  rw [hresults, hfast, hwaiting] at hsource
  have hknown : (before.state.perSource source).known = some id := by
    rw [hsource.known, classifications_classified, if_pos rfl, List.getLast?_concat]
    rfl
  have hsettled : (before.state.perSource source).settled = true := by
    by_contra hunsettled
    have hrun := (hsource.unsettled (Bool.eq_false_iff.mpr hunsettled)).2 id hknown
    omega
  have hsince := hsource.counted rfl hsettled
  rcases hinv.before_cases hsettles with
    ⟨hunsettled, -⟩ | ⟨-, hdue, -⟩ | ⟨other, -, hother, -, hdecided⟩
  · exact absurd (hsettled.symm.trans hunsettled) (by decide)
  · omega
  · cases hknown.symm.trans hother
    rw [← hdecision, hdecided]

theorem fastPathsBounded : FastPathsBounded cfg trace.log := by
  intro earlier segment later source hlog hnone
  rcases exists_earlier hreached hlog with ⟨before, hinv, hbefore, -⟩
  calc
    fastPaths segment source ≤ fastSince (earlier ++ segment) source := fastPaths_le_fastSince hnone
    _ = fastSince before.log source := by rw [hbefore]
    _ ≤ cfg.sampleRate - 1 := by
      cases hsettles : cfg.settles source with
      | false =>
          rw [hinv.inactive source hsettles]
          exact Nat.zero_le _
      | true => exact (hinv.source source hsettles).bounded

end

/-! ## One source alone -/

/-- The traces look alike to a source, and the second one has no other events. -/
structure Alike (source : String) (trace alone : SettleTrace) : Prop where
  cfg_eq : alone.state.cfg = trace.state.cfg
  entry : alone.state.perSource source = trace.state.perSource source
  waiting : alone.waiting source = trace.waiting source
  log : alone.log = trace.log.filter (·.source = source)

theorem before_congr {left right : SettleState} {source : String} (hcfg : left.cfg = right.cfg)
    (hentry : left.perSource source = right.perSource source) :
    (left.before source).1 = (right.before source).1 ∧
      (left.before source).2.perSource source = (right.before source).2.perSource source := by
  rcases left with ⟨cfg, left⟩
  rcases right with ⟨_, right⟩
  cases hcfg
  have hactive : (⟨cfg, left⟩ : SettleState).active source =
      (⟨cfg, right⟩ : SettleState).active source := rfl
  dsimp only at hentry
  simp only [SettleState.before, hactive, hentry]
  split_ifs
  · exact ⟨rfl, hentry⟩
  · simp
  · cases (right source).known <;> simp
  · exact ⟨rfl, hentry⟩

theorem after_congr {left right : SettleState} {source : String} (hcfg : left.cfg = right.cfg)
    (hentry : left.perSource source = right.perSource source) (known : Option SchemaId)
    (driftCheck : Bool) :
    (left.after source known driftCheck).perSource source =
      (right.after source known driftCheck).perSource source := by
  rcases left with ⟨cfg, left⟩
  rcases right with ⟨_, right⟩
  cases hcfg
  have hactive : (⟨cfg, left⟩ : SettleState).active source =
      (⟨cfg, right⟩ : SettleState).active source := rfl
  dsimp only at hentry
  simp only [SettleState.after, hactive, hentry]
  split_ifs
  · exact hentry
  · cases known with
    | none => simp
    | some id =>
        dsimp only
        split_ifs <;> simp
  · cases known with
    | none => simp
    | some id =>
        dsimp only
        split_ifs <;> simp

namespace Alike

variable {source : String} {trace alone next : SettleTrace} {call : SettleCall}

theorem asked (halike : Alike source trace alone) :
    Alike source (trace.asked source) (alone.asked source) := by
  rcases before_congr halike.cfg_eq halike.entry with ⟨hdecision, hentry⟩
  constructor
  · calc
      (alone.state.before source).2.cfg = alone.state.cfg :=
        (SettleState.before_frame alone.state source).1
      _ = trace.state.cfg := halike.cfg_eq
      _ = (trace.state.before source).2.cfg :=
        (SettleState.before_frame trace.state source).1.symm
  · exact hentry
  · simp only [SettleTrace.asked, hdecision]
    cases (trace.state.before source).1 with
    | fastPath id => exact halike.waiting
    | classify driftCheck => simp [SettleTrace.waitingAfter]
  · simp [SettleTrace.asked, hdecision, halike.log]

theorem answered (halike : Alike source trace alone) (known : Option SchemaId)
    (driftCheck : Bool) :
    Alike source (trace.answered source known driftCheck)
      (alone.answered source known driftCheck) := by
  constructor
  · calc
      (alone.state.after source known driftCheck).cfg = alone.state.cfg :=
        (SettleState.after_frame alone.state source known driftCheck).1
      _ = trace.state.cfg := halike.cfg_eq
      _ = (trace.state.after source known driftCheck).cfg :=
        (SettleState.after_frame trace.state source known driftCheck).1.symm
  · exact after_congr halike.cfg_eq halike.entry known driftCheck
  · simp [SettleTrace.answered]
  · simp [SettleTrace.answered, halike.log]

/-- A call of the source is answered alike. -/
theorem own (halike : Alike source trace alone) (hcall : call.source = source)
    (hstep : trace.step call = some next) :
    ∃ nextAlone, alone.step call = some nextAlone ∧ Alike source next nextAlone := by
  rcases SettleTrace.step_cases hstep with
    ⟨other, rfl, hwaiting, rfl⟩ | ⟨other, known, driftCheck, rfl, hwaiting, rfl⟩
  · have hother : other = source := hcall
    subst hother
    refine ⟨alone.asked other, ?_, halike.asked⟩
    simp [SettleTrace.step, halike.waiting.trans hwaiting]
  · have hother : other = source := hcall
    subst hother
    refine ⟨alone.answered other known driftCheck, ?_, halike.answered known driftCheck⟩
    simp [SettleTrace.step, halike.waiting.trans hwaiting]

/-- A call of another source is not seen. -/
theorem other (halike : Alike source trace alone) (hcall : call.source ≠ source)
    (hstep : trace.step call = some next) : Alike source next alone := by
  rcases SettleTrace.step_cases hstep with
    ⟨other, rfl, -, rfl⟩ | ⟨other, known, driftCheck, rfl, -, rfl⟩
  · have hne : source ≠ other := Ne.symm hcall
    have hframe := SettleState.before_frame trace.state other
    constructor
    · exact halike.cfg_eq.trans hframe.1.symm
    · exact halike.entry.trans (hframe.2 source hne).symm
    · exact halike.waiting.trans (SettleTrace.waitingAfter_of_ne hne _).symm
    · simp [SettleTrace.asked, halike.log, hne.symm]
  · have hne : source ≠ other := Ne.symm hcall
    have hframe := SettleState.after_frame trace.state other known driftCheck
    constructor
    · exact halike.cfg_eq.trans hframe.1.symm
    · exact halike.entry.trans (hframe.2 source hne).symm
    · exact halike.waiting.trans (Function.update_of_ne hne ..).symm
    · simp [SettleTrace.answered, halike.log, hne.symm]

/-- A run and its calls of one source stay alike, by induction on the calls. -/
theorem replay {cfg : SettleCfg} {last : SettleTrace} (calls : List SettleCall)
    (halike : Alike source trace alone)
    (hreplay : (settleMachine cfg).replay Machine.always trace calls = some last) :
    ∃ lastAlone, (settleMachine cfg).replay Machine.always alone
        (calls.filter (·.source = source)) = some lastAlone ∧ Alike source last lastAlone := by
  induction calls generalizing trace alone with
  | nil =>
      cases hreplay
      exact ⟨alone, rfl, halike⟩
  | cons call calls ih =>
      rw [Machine.replay_always_cons] at hreplay
      rcases Option.bind_eq_some_iff.mp hreplay with ⟨next, hstep, hrest⟩
      by_cases hcall : call.source = source
      · rcases halike.own hcall hstep with ⟨nextAlone, hstepAlone, hnext⟩
        rcases ih hnext hrest with ⟨lastAlone, hreplayAlone, hlast⟩
        refine ⟨lastAlone, ?_, hlast⟩
        rw [List.filter_cons_of_pos (by simpa using hcall), Machine.replay_always_cons]
        exact Option.bind_eq_some_iff.mpr ⟨nextAlone, hstepAlone, hreplayAlone⟩
      · rw [List.filter_cons_of_neg (by simpa using hcall)]
        exact ih (halike.other hcall hstep) hrest

end Alike

theorem sourceIndependent {cfg : SettleCfg} {calls : List SettleCall} {trace : SettleTrace}
    (hrun : runCalls cfg calls = some trace) : SourceIndependent cfg calls trace.log := by
  intro source
  have hinit : Alike source (.new cfg) (.new cfg) := ⟨rfl, rfl, rfl, rfl⟩
  rcases hinit.replay calls hrun with ⟨alone, halone, halike⟩
  exact ⟨alone, halone, halike.log⟩

/-! ## When the law holds -/

/-- The law of every run of a configuration. -/
def SettleAndSample (cfg : SettleCfg) : Prop :=
  ∀ calls trace, runCalls cfg calls = some trace → SettleLaw cfg calls trace.log

/-- No source can settle. -/
def SettleCfg.Off (cfg : SettleCfg) : Prop :=
  cfg.enabled = false ∨ cfg.sampleRate ≤ 1 ∨ cfg.sources = []

/-- After one classification a source is not settled, whatever the threshold is. -/
theorem exists_classifiedOnce {cfg : SettleCfg} {source : String} (id : SchemaId)
    (hsettles : cfg.settles source = true) :
    ∃ trace, runCalls cfg [.before source, .after source (some id), .before source] = some trace ∧
      trace.log = [.decided source (.classify false), .classified source (some id),
        .decided source (.classify false)] := by
  have hfirst : (SettleState.new cfg).before source = (.classify false, .new cfg) :=
    SettleState.before_unsettled rfl
  have hafter : (SettleState.new cfg).after source (some id) false =
      (SettleState.new cfg).set source ⟨some id, 1, false, 0⟩ :=
    SettleState.after_other hsettles (by simp [SettleState.new]) false
  have hsecond := @SettleState.before_unsettled
    ((SettleState.new cfg).set source ⟨some id, 1, false, 0⟩) source (by simp)
  refine ⟨⟨(SettleState.new cfg).set source ⟨some id, 1, false, 0⟩,
    Function.update (fun _ ↦ none) source (some false),
    [.decided source (.classify false), .classified source (some id),
      .decided source (.classify false)]⟩, ?_, rfl⟩
  simp [runCalls, Machine.replay, Machine.always, settleMachine, SettleTrace.step,
    SettleTrace.asked, SettleTrace.answered, SettleTrace.waitingAfter, SettleTrace.new, hfirst,
    hafter, hsecond]

/-- A threshold of one or none is only reached by the second classification. -/
theorem not_settleAndSample {cfg : SettleCfg} (hon : ¬ cfg.Off) (hsettle : cfg.settleAfter < 2) :
    ¬ SettleAndSample cfg := by
  intro hlaw
  simp only [SettleCfg.Off, not_or, Bool.not_eq_false, not_le] at hon
  rcases hon with ⟨henabled, hrate, hsources⟩
  rcases List.exists_mem_of_ne_nil _ hsources with ⟨source, hmem⟩
  let id : SchemaId := .fromDigest (Vector.replicate 32 0)
  rcases exists_classifiedOnce id (cfg.settles_iff.mpr ⟨henabled, hrate, hmem⟩) with
    ⟨trace, hrun, hlog⟩
  have hlong : runLength id (classifications ([.decided source (.classify false)] ++
      [.classified source (some id)]) source) = 1 := by
    rw [classifications_classified, if_pos rfl, runLength_concat, if_pos rfl]
    rfl
  have hprompt := (hlaw _ trace hrun).prompt [.decided source (.classify false)] source id []
    (.classify false) [] henabled hmem hrate hlog nofun (by omega)
  cases hprompt

/-- Settle-and-sample keeps its law exactly when the threshold is at least two, or when it is off. -/
theorem settleAndSample_iff (cfg : SettleCfg) :
    SettleAndSample cfg ↔ 2 ≤ cfg.settleAfter ∨ cfg.Off := by
  constructor
  · intro hlaw
    by_contra hnot
    rw [not_or, not_le] at hnot
    exact not_settleAndSample hnot.2 hnot.1 hlaw
  · intro hcfg calls trace hrun
    have hreached := Machine.reachableFrom_replay calls hrun
    refine ⟨fastPathsSafe hreached, ?_, fastPathsBounded hreached, sourceIndependent hrun⟩
    rcases hcfg with hsettle | henabled | hrate | hsources
    · exact fastPathsPrompt hreached hsettle
    · intro _ _ _ _ _ _ hon
      exact absurd (henabled.symm.trans hon) (by decide)
    · intro _ _ _ _ _ _ _ _ hlarge
      exact absurd hlarge (not_lt.mpr hrate)
    · intro _ source _ _ _ _ _ hmem
      rw [hsources] at hmem
      cases hmem

/-- A source that settles after one classification is classified a second time. -/
theorem settleAfterOne_not_prompt : ¬ SettleAndSample ⟨true, 1, 1000, ["orders"]⟩ :=
  not_settleAndSample (by simp [SettleCfg.Off]) (by decide)

end Deblob.Kafka
