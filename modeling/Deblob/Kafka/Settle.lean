import Deblob.Core.Identity
import Mathlib.Algebra.GroupWithZero.Nat
import Mathlib.Logic.Function.Basic

/-!
# Settle-and-sample

A source that classified often enough to one known schema is settled: its records skip
classification, except for one drift check in every `sampleRate` of them.
-/

namespace Deblob.Kafka

open Core

structure SettleCfg where
  enabled : Bool := false
  settleAfter : ℕ := 1000
  sampleRate : ℕ := 1000
  sources : List String := []

/-- The counters of one source. -/
structure SourceSettle where
  known : Option SchemaId := none
  consecutive : ℕ := 0
  settled : Bool := false
  sinceSample : ℕ := 0

inductive SettleDecision where
  | fastPath (id : SchemaId)
  | classify (driftCheck : Bool)

/-- A source without an entry has the default counters. -/
structure SettleState where
  cfg : SettleCfg
  perSource : String → SourceSettle

namespace SettleState

def new (cfg : SettleCfg) : SettleState := ⟨cfg, fun _ ↦ {}⟩

def active (state : SettleState) (source : String) : Bool :=
  state.cfg.enabled && decide (1 < state.cfg.sampleRate) && state.cfg.sources.contains source

def set (state : SettleState) (source : String) (entry : SourceSettle) : SettleState :=
  { state with perSource := Function.update state.perSource source entry }

/-- Decide how the next record of `source` is handled, advancing its sample counter. -/
def before (state : SettleState) (source : String) : SettleDecision × SettleState :=
  if !state.active source then (.classify false, state)
  else
    let s := state.perSource source
    if s.settled then
      if s.sinceSample + 1 ≥ state.cfg.sampleRate then
        (.classify true, state.set source { s with sinceSample := 0 })
      else
        let state := state.set source { s with sinceSample := s.sinceSample + 1 }
        match s.known with
        | some id => (.fastPath id, state)
        | none => (.classify false, state)
    else (.classify false, state)

/-- Feed a classification back; `known` is the schema it resolved to, if any. -/
def after (state : SettleState) (source : String) (known : Option SchemaId) (driftCheck : Bool) :
    SettleState :=
  if !state.active source then state
  else
    let s := state.perSource source
    match known with
    | some id =>
      if s.known = some id then
        if driftCheck then
          -- `saturating_add` on a 32-bit counter
          state.set source { s with consecutive := min (s.consecutive + 1) (2 ^ 32 - 1) }
        else
          state.set source { s with
            consecutive := s.consecutive + 1
            settled := s.settled || decide (s.consecutive + 1 ≥ state.cfg.settleAfter) }
      else
        state.set source { known := some id, consecutive := 1, settled := false, sinceSample := 0 }
    | none =>
      state.set source { known := none, consecutive := 0, settled := false, sinceSample := 0 }

end SettleState

end Deblob.Kafka
