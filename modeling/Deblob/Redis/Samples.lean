import Deblob.Core.Identity
import Deblob.Lib.ScoredSet
import Mathlib.Data.String.Basic

/-!
# The store of redacted samples

A candidate has a sorted set with the server's time of the first insertion of each sample and a
hash with the samples as JSON, and both keys expire together. One script inserts a sample that is
not in the set, removes what is older than the retention, then the oldest beyond the maximum, and
renews the expiry. Listing reads the newest ids and then their hash fields, and removes nothing.
-/

namespace Deblob.Redis

open Core Lib

/-- A sample; the body is all that the store only carries. -/
structure SampleRecord (Body : Type) where
  sampleId : String
  candidateId : CandidateId
  body : Body
deriving DecidableEq

/-- The JSON form of a sample. -/
structure SampleCodec (Body : Type) where
  toJson : SampleRecord Body → String
  fromJson : String → Option (SampleRecord Body)
  fromJson_toJson : ∀ sample, fromJson (toJson sample) = some sample

structure SampleStoreOpts where
  maxPerCandidate : ℕ
  retentionSecs : ℕ
  keyTtlSecs : ℕ

def SampleStoreOpts.retentionMs (opts : SampleStoreOpts) : ℕ := opts.retentionSecs * 1000

/-- The two keys of a candidate, and the time at which both expire. -/
structure SampleKeys where
  index : ScoredSet String
  payloads : String → Option String
  expiresAt : ℕ

namespace SampleKeys

def none : SampleKeys := ⟨.empty, fun _ ↦ .none, 0⟩

/-- What the server sees at a time: an expired key is absent. -/
def live (keys : SampleKeys) (nowMs : ℕ) : SampleKeys :=
  if nowMs ≤ keys.expiresAt then keys else none

/-- `ZADD NX`, and `HSET` when the id was added. -/
def insertNew (keys : SampleKeys) (nowMs : ℕ) (sampleId json : String) : SampleKeys :=
  { keys with
    index := keys.index.addNew sampleId nowMs
    payloads := if sampleId ∈ keys.index.members then keys.payloads
      else Function.update keys.payloads sampleId (some json) }

/-- `ZREM` and `HDEL` of the same ids. -/
def remove (keys : SampleKeys) (ids : List String) : SampleKeys :=
  { keys with
    index := keys.index.without ids
    payloads := fun sampleId ↦ if sampleId ∈ ids then .none else keys.payloads sampleId }

def pruneAge (opts : SampleStoreOpts) (nowMs : ℕ) (keys : SampleKeys) : SampleKeys :=
  keys.remove ((keys.index.below ((nowMs : ℤ) - opts.retentionMs)).map Prod.fst)

def pruneCount (opts : SampleStoreOpts) (keys : SampleKeys) : SampleKeys :=
  keys.remove ((keys.index.entries.take (keys.index.entries.length - opts.maxPerCandidate)).map
    Prod.fst)

/-- `EXPIRE` of both keys, which removes them at once when the time to live is zero. -/
def expire (opts : SampleStoreOpts) (nowMs : ℕ) (keys : SampleKeys) : SampleKeys :=
  if opts.keyTtlSecs = 0 then none
  else { keys with expiresAt := nowMs + opts.keyTtlSecs * 1000 }

/-- `PUT_SAMPLE_LUA`; the answer is whether the sample was inserted. -/
def putScript (opts : SampleStoreOpts) (nowMs : ℕ) (sampleId json : String) (keys : SampleKeys) :
    Bool × SampleKeys :=
  let present := keys.live nowMs
  (decide (sampleId ∉ present.index.members),
    (((present.insertNew nowMs sampleId json).pruneAge opts nowMs).pruneCount opts).expire
      opts nowMs)

/-- `ZREVRANGE` from 0 to `limit.saturating_sub(1)`, whose end is inclusive. -/
def newest (keys : SampleKeys) (limit : ℕ) : List (String × ℕ) :=
  keys.index.entries.reverse.take (limit - 1 + 1)

end SampleKeys

/-- The keys of all candidates. -/
abbrev SampleStore : Type := CandidateId → SampleKeys

variable {Body : Type} (codec : SampleCodec Body) (opts : SampleStoreOpts)

def putSample (nowMs : ℕ) (sample : SampleRecord Body) (store : SampleStore) :
    Bool × SampleStore :=
  let result := (store sample.candidateId).putScript opts nowMs sample.sampleId
    (codec.toJson sample)
  (result.1, Function.update store sample.candidateId result.2)

def listSamples (nowMs : ℕ) (candidateId : CandidateId) (limit : ℕ) (store : SampleStore) :
    List (SampleRecord Body) :=
  let present := (store candidateId).live nowMs
  ((present.newest limit).filterMap fun entry ↦ present.payloads entry.1).filterMap codec.fromJson

namespace SampleKeys

variable {opts : SampleStoreOpts} {keys : SampleKeys} {nowMs score : ℕ} {sampleId json : String}
  {entry : String × ℕ} {ids : List String}

/-- The time index and the payload hash hold the same ids. -/
def Matched (keys : SampleKeys) : Prop :=
  ∀ sampleId, sampleId ∈ keys.index.members ↔ (keys.payloads sampleId).isSome

theorem matched_none : none.Matched := fun _ ↦ by
  simp [none, ScoredSet.empty, ScoredSet.members]

theorem Matched.live (hmatched : keys.Matched) (nowMs : ℕ) : (keys.live nowMs).Matched := by
  unfold SampleKeys.live
  split
  · exact hmatched
  · exact matched_none

theorem Matched.insertNew (hmatched : keys.Matched) :
    (keys.insertNew nowMs sampleId json).Matched := by
  intro other
  rw [SampleKeys.insertNew, ScoredSet.mem_members_addNew]
  by_cases hother : other = sampleId
  · subst hother
    by_cases hmember : other ∈ keys.index.members
    · simpa [hmember] using (hmatched other).mp hmember
    · simp [hmember]
  · by_cases hmember : sampleId ∈ keys.index.members
    · simpa [hother, hmember] using hmatched other
    · simpa [hother, hmember] using hmatched other

theorem Matched.remove (hmatched : keys.Matched) : (keys.remove ids).Matched := by
  intro other
  rw [SampleKeys.remove, ScoredSet.mem_members_without, hmatched other]
  by_cases hother : other ∈ ids
  · simp [hother]
  · simp [hother]

theorem Matched.expire (hmatched : keys.Matched) : (keys.expire opts nowMs).Matched := by
  unfold SampleKeys.expire
  split
  · exact matched_none
  · exact hmatched

theorem pruneAge_entries : (keys.pruneAge opts nowMs).index.entries =
    keys.index.entries.filter fun entry ↦ nowMs ≤ entry.2 + opts.retentionMs := by
  rw [pruneAge, remove, ScoredSet.without_below]
  refine List.filter_congr fun entry _ ↦ decide_eq_decide.mpr ?_
  omega

theorem pruneCount_entries : (keys.pruneCount opts).index.entries =
    keys.index.entries.drop (keys.index.entries.length - opts.maxPerCandidate) :=
  ScoredSet.without_take _ _

theorem pruneCount_of_length (hlength : keys.index.entries.length ≤ opts.maxPerCandidate) :
    keys.pruneCount opts = keys := by
  have hnone : keys.index.entries.length - opts.maxPerCandidate = 0 := by omega
  simp [pruneCount, remove, hnone]

theorem payloads_of_remove {text : String}
    (hpayload : (keys.remove ids).payloads sampleId = some text) :
    sampleId ∉ ids ∧ keys.payloads sampleId = some text := by
  by_cases hid : sampleId ∈ ids
  · simp [remove, hid] at hpayload
  · exact ⟨hid, by simpa [remove, hid] using hpayload⟩

theorem payloads_remove (hid : sampleId ∉ ids) :
    (keys.remove ids).payloads sampleId = keys.payloads sampleId := if_neg hid

theorem matched_putScript (hmatched : keys.Matched) :
    (keys.putScript opts nowMs sampleId json).2.Matched :=
  (hmatched.live nowMs).insertNew.remove.remove.expire

theorem length_putScript :
    (keys.putScript opts nowMs sampleId json).2.index.entries.length ≤ opts.maxPerCandidate := by
  rw [putScript, expire]
  split
  · exact Nat.zero_le _
  · dsimp only
    rw [pruneCount_entries, List.length_drop]
    omega

/-- An id that the script leaves has the score it had, and a new id has the time of the call. -/
theorem mem_putScript (hentry : entry ∈ (keys.putScript opts nowMs sampleId json).2.index.entries) :
    (entry = (sampleId, nowMs) ∧ sampleId ∉ (keys.live nowMs).index.members) ∨
      entry ∈ (keys.live nowMs).index.entries := by
  rw [putScript, expire] at hentry
  split at hentry
  · cases hentry
  · dsimp only at hentry
    rw [pruneCount_entries] at hentry
    have hfresh := List.mem_of_mem_drop hentry
    rw [pruneAge_entries] at hfresh
    have hinserted := (List.mem_filter.mp hfresh).1
    by_cases hmember : sampleId ∈ (keys.live nowMs).index.members
    · rw [insertNew, ScoredSet.addNew_of_mem hmember] at hinserted
      exact .inr hinserted
    · rcases (ScoredSet.mem_addNew hmember).mp hinserted with hnew | hold
      · exact .inl ⟨hnew, hmember⟩
      · exact .inr hold

theorem payloads_putScript {other text : String}
    (hpayload : (keys.putScript opts nowMs sampleId json).2.payloads other = some text) :
    (other = sampleId ∧ text = json) ∨ (keys.live nowMs).payloads other = some text := by
  rw [putScript, expire] at hpayload
  split at hpayload
  · cases hpayload
  · have hinserted := (payloads_of_remove (payloads_of_remove hpayload).2).2
    by_cases hmember : sampleId ∈ (keys.live nowMs).index.members
    · rw [insertNew, if_pos hmember] at hinserted
      exact .inr hinserted
    · rw [insertNew, if_neg hmember] at hinserted
      dsimp only at hinserted
      by_cases hother : other = sampleId
      · subst hother
        rw [Function.update_self] at hinserted
        exact .inl ⟨rfl, (Option.some.inj hinserted).symm⟩
      · rw [Function.update_of_ne hother] at hinserted
        exact .inr hinserted

/-- What was stored and is within the retention is stored as before, and nothing else is. -/
structure OnlyAged (opts : SampleStoreOpts) (nowMs : ℕ) (before after : SampleKeys) : Prop where
  entries : after.index.entries =
    before.index.entries.filter fun entry ↦ nowMs ≤ entry.2 + opts.retentionMs
  payloads : ∀ sampleId ∈ after.index.members, after.payloads sampleId = before.payloads sampleId

theorem live_none : none.live nowMs = none := by
  unfold live
  split <;> rfl

theorem live_eq_or (keys : SampleKeys) (nowMs : ℕ) :
    keys.live nowMs = keys ∨ keys.live nowMs = none := by
  unfold live
  split
  · exact .inl rfl
  · exact .inr rfl

theorem mem_of_mem_live (hentry : entry ∈ (keys.live nowMs).index.entries) :
    entry ∈ keys.index.entries := by
  rcases keys.live_eq_or nowMs with hlive | hlive
  · rwa [hlive] at hentry
  · rw [hlive] at hentry
    cases hentry

theorem payloads_of_live {text : String}
    (hpayload : (keys.live nowMs).payloads sampleId = some text) :
    keys.payloads sampleId = some text := by
  rcases keys.live_eq_or nowMs with hlive | hlive
  · rwa [hlive] at hpayload
  · rw [hlive] at hpayload
    cases hpayload

theorem length_live :
    (keys.live nowMs).index.entries.length ≤ keys.index.entries.length := by
  rcases keys.live_eq_or nowMs with hlive | hlive
  · rw [hlive]
  · rw [hlive]
    exact Nat.zero_le _

theorem onlyAged_none : OnlyAged opts nowMs none none := ⟨rfl, fun _ _ ↦ rfl⟩

theorem onlyAged_pruneAge (keys : SampleKeys) :
    OnlyAged opts nowMs keys (keys.pruneAge opts nowMs) := by
  constructor
  · exact pruneAge_entries
  · intro sampleId hmember
    exact payloads_remove (ScoredSet.mem_members_without.mp hmember).2

/-- Nothing is lost when nothing is past the retention. -/
theorem OnlyAged.unchanged {before after : SampleKeys} (haged : OnlyAged opts nowMs before after)
    (hbefore : before.Matched) (hafter : after.Matched)
    (hfresh : ∀ entry ∈ before.index.entries, nowMs ≤ entry.2 + opts.retentionMs) :
    after.index = before.index ∧ after.payloads = before.payloads := by
  have hindex : after.index = before.index := by
    apply ScoredSet.ext
    rw [haged.entries]
    exact List.filter_eq_self.mpr fun entry hentry ↦ decide_eq_true (hfresh entry hentry)
  refine ⟨hindex, funext fun sampleId ↦ ?_⟩
  by_cases hmember : sampleId ∈ after.index.members
  · exact haged.payloads sampleId hmember
  · have hlost := mt (hafter sampleId).mpr hmember
    rw [hindex] at hmember
    have hnever := mt (hbefore sampleId).mpr hmember
    rw [Option.not_isSome_iff_eq_none.mp hlost, Option.not_isSome_iff_eq_none.mp hnever]

/-- The expiry is renewed from the time of the call, so what is left is there. -/
theorem live_putScript : (keys.putScript opts nowMs sampleId json).2.live nowMs =
    (keys.putScript opts nowMs sampleId json).2 := by
  rw [putScript, expire]
  split
  · exact live_none
  · exact if_pos (Nat.le_add_right _ _)

/-- A call for a stored id only removes what is past the retention. -/
theorem putScript_stored (httl : opts.keyTtlSecs ≠ 0)
    (hlength : (keys.live nowMs).index.entries.length ≤ opts.maxPerCandidate)
    (hmember : sampleId ∈ (keys.live nowMs).index.members) :
    OnlyAged opts nowMs (keys.live nowMs) (keys.putScript opts nowMs sampleId json).2 := by
  have hinsert : (keys.live nowMs).insertNew nowMs sampleId json = keys.live nowMs := by
    rw [insertNew, ScoredSet.addNew_of_mem hmember, if_pos hmember]
  have hcount : ((keys.live nowMs).pruneAge opts nowMs).index.entries.length ≤
      opts.maxPerCandidate := by
    rw [pruneAge_entries]
    exact (List.length_filter_le _ _).trans hlength
  rw [putScript, hinsert, pruneCount_of_length hcount, expire, if_neg httl]
  exact ⟨(onlyAged_pruneAge _).entries, (onlyAged_pruneAge _).payloads⟩

/-- A new id that ranks below all of a full set is removed again by the call that inserts it. -/
theorem putScript_pushed_out (httl : opts.keyTtlSecs ≠ 0)
    (hmember : sampleId ∉ (keys.live nowMs).index.members)
    (hlength : (keys.live nowMs).index.entries.length = opts.maxPerCandidate)
    (hlowest : ∀ entry ∈ (keys.live nowMs).index.entries, rankLe (sampleId, nowMs) entry) :
    OnlyAged opts nowMs (keys.live nowMs) (keys.putScript opts nowMs sampleId json).2 := by
  have hinserted : ((keys.live nowMs).insertNew nowMs sampleId json).index.entries =
      (sampleId, nowMs) :: (keys.live nowMs).index.entries :=
    ScoredSet.addNew_lowest hmember hlowest
  have hfresh : ∀ entry ∈ (keys.live nowMs).index.entries,
      nowMs ≤ entry.2 + opts.retentionMs := fun entry hentry ↦
    (score_le_of_rankLe (hlowest entry hentry)).trans (Nat.le_add_right _ _)
  have haged : (((keys.live nowMs).insertNew nowMs sampleId json).pruneAge opts
      nowMs).index.entries = (sampleId, nowMs) :: (keys.live nowMs).index.entries := by
    rw [pruneAge_entries, hinserted]
    refine List.filter_eq_self.mpr fun entry hentry ↦ decide_eq_true ?_
    rcases List.mem_cons.mp hentry with rfl | hentry
    · exact Nat.le_add_right _ _
    · exact hfresh entry hentry
  rw [putScript, expire, if_neg httl]
  constructor
  · dsimp only
    rw [pruneCount_entries, haged, List.length_cons, hlength, Nat.add_sub_cancel_left]
    exact (List.filter_eq_self.mpr fun entry hentry ↦ decide_eq_true (hfresh entry hentry)).symm
  · intro other hother
    have hcount := ScoredSet.mem_members_without.mp hother
    have hage := ScoredSet.mem_members_without.mp hcount.1
    have hne : other ≠ sampleId := by
      rintro rfl
      apply hcount.2
      rw [haged, List.length_cons, hlength, Nat.add_sub_cancel_left]
      exact List.mem_cons_self
    refine (payloads_remove hcount.2).trans ((payloads_remove hage.2).trans ?_)
    rw [insertNew, if_neg hmember]
    exact Function.update_of_ne hne _ _

end SampleKeys

end Deblob.Redis
