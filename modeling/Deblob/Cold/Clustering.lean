import Deblob.Cold.Ingest
import Deblob.Lib.TransitionSystem

/-!
# When clustering is stable

Observations of one source are routed by the aliases that earlier observations registered. An
ingest registers all of its projections for its own candidate, so it may take an alias away from
another candidate, and documents of one shape may differ in their generalized fingerprint. Routing
is stable along the runs in which neither happens to an observed document.
-/

namespace Deblob.Cold

open Core Lib Fingerprint Redis
open Deblob.Monoid (Profile)

structure ClusterState where
  store : ColdStore
  /-- The documents ingested so far, with the candidate each was routed to. -/
  routed : List (Node × CandidateId)

/-- One ingest of the source, with the answers of the rate limiter and of the store. -/
structure ClusterEvent where
  candId : CandidateId
  node : Node
  nowMs : ℤ
  granted : Bool
  failure : Option ℕ

def ClusterEvent.call (source : String) (event : ClusterEvent) : IngestCall :=
  ⟨event.candId, event.node, source, event.nowMs⟩

variable (sha256 : Bytes → Digest) (source : String)

def clusterStep (state : ClusterState) (event : ClusterEvent) : ClusterState :=
  let result := ingest sha256 state.store (event.call source) event.granted event.failure
  ⟨result.2, state.routed ++ routedTo event.node result.1⟩

def clusterMachine : Machine ClusterState ClusterEvent where
  init := ⟨.empty, []⟩
  step state event := some (clusterStep sha256 source state event)

/-- Documents of one shape are routed to one candidate. -/
def ClusterStable (routed : List (Node × CandidateId)) : Prop :=
  routed.Pairwise fun earlier later ↦ shapeOf earlier.1 = shapeOf later.1 → earlier.2 = later.2

/-- Every earlier document whose fingerprint is a projection of the observation has its alias at
the candidate of the observation's first registered alias. -/
def keepsAliases (state : ClusterState) (event : ClusterEvent) : Prop :=
  ∀ earlier ∈ state.routed,
    clusterKey sha256 source earlier.1 ∈ clusterKeys sha256 source event.node →
      state.store.clusters (clusterKey sha256 source earlier.1) =
        clustered sha256 state.store (event.call source)

/-- Earlier documents of the observation's shape have its generalized fingerprint. -/
def sameFingerprint (state : ClusterState) (event : ClusterEvent) : Prop :=
  ∀ earlier ∈ state.routed, shapeOf earlier.1 = shapeOf event.node →
    clusterKey sha256 source earlier.1 = clusterKey sha256 source event.node

def keepsClusters (state : ClusterState) (event : ClusterEvent) : Prop :=
  keepsAliases sha256 source state event ∧ sameFingerprint sha256 source state event

/-- Every routed document has its alias at its candidate, and routing was stable so far. -/
structure ClusterInv (state : ClusterState) : Prop where
  registered : ∀ entry ∈ state.routed,
    state.store.clusters (clusterKey sha256 source entry.1) = some entry.2
  stable : ClusterStable state.routed

variable {sha256 source} {state : ClusterState} {event : ClusterEvent}

/-- An observation whose own alias is registered goes where the alias points. -/
theorem clustered_of_registered {store : ColdStore} {call : IngestCall} {id : CandidateId}
    (hregistered : store.clusters (clusterKey sha256 call.source call.node) = some id) :
    clustered sha256 store call = some id := by
  rcases clusterKeys_eq sha256 call.source call.node with ⟨projections, hkeys⟩
  rw [clustered, hkeys, List.findSome?_cons, hregistered]

theorem targetId_of_clustered {store : ColdStore} {call : IngestCall} {id : CandidateId}
    (hclustered : clustered sha256 store call = some id) :
    targetId sha256 store call = id := by
  rw [targetId, hclustered, Option.getD_some]

/-- An ingest that keeps the aliases leaves every routed document at its candidate. -/
theorem registered_step (hinv : ClusterInv sha256 source state)
    (hkeeps : keepsAliases sha256 source state event) {entry : Node × CandidateId}
    (hentry : entry ∈ state.routed) :
    (clusterStep sha256 source state event).store.clusters (clusterKey sha256 source entry.1) =
      some entry.2 := by
  have hregistered := hinv.registered entry hentry
  have hcases := @clusters_ingest sha256 state.store (event.call source) event.granted
    event.failure (clusterKey sha256 source entry.1)
  rcases hcases with hsame | ⟨hkey, hset⟩
  · exact hsame.trans hregistered
  · have hclustered := (hkeeps entry hentry hkey).symm.trans hregistered
    exact hset.trans (congrArg some (targetId_of_clustered hclustered))

/-- An ingest routes nothing, or its document to the target, under the document's own alias. -/
theorem routed_step (sha256 : Bytes → Digest) (source : String) (state : ClusterState)
    (event : ClusterEvent) :
    (clusterStep sha256 source state event).routed = state.routed ∨
      ((clusterStep sha256 source state event).routed =
          state.routed ++ [(event.node, targetId sha256 state.store (event.call source))] ∧
        (clusterStep sha256 source state event).store.clusters
          (clusterKey sha256 source event.node) =
            some (targetId sha256 state.store (event.call source))) := by
  cases hresult : (ingest sha256 state.store (event.call source) event.granted event.failure).1 with
  | none =>
      left
      simp only [clusterStep, hresult, routedTo, List.append_nil]
  | some outcome =>
      cases outcome with
      | rateLimited =>
          left
          simp only [clusterStep, hresult, routedTo, List.append_nil]
      | ingested id isNew =>
          right
          rcases ingest_ingested hresult with ⟨rfl, hstore⟩
          rcases clusterKeys_eq sha256 source event.node with ⟨projections, hkeys⟩
          constructor
          · simp only [clusterStep, hresult, routedTo]
          · change (ingest sha256 state.store (event.call source) event.granted
              event.failure).2.clusters _ = _
            rw [hstore, applyWrites_cons, clusters_laterWrites, if_pos]
            exact hkeys ▸ List.mem_cons_self

theorem clusterInv_step (hinv : ClusterInv sha256 source state)
    (hkeeps : keepsClusters sha256 source state event) :
    ClusterInv sha256 source (clusterStep sha256 source state event) := by
  have hregistered (entry : Node × CandidateId) (hentry : entry ∈ state.routed) :=
    registered_step hinv hkeeps.1 hentry
  rcases routed_step sha256 source state event with hsame | ⟨hrouted, hown⟩
  · constructor
    · rw [hsame]
      exact hregistered
    · rw [hsame]
      exact hinv.stable
  · constructor
    · intro entry hentry
      rw [hrouted, List.mem_append, List.mem_singleton] at hentry
      rcases hentry with hentry | rfl
      · exact hregistered entry hentry
      · exact hown
    · rw [hrouted, ClusterStable, List.pairwise_append]
      constructor
      · exact hinv.stable
      · constructor
        · exact List.pairwise_singleton _ _
        · intro earlier hearlier later hlater hshape
          rw [List.mem_singleton] at hlater
          subst hlater
          -- the two documents share a key, whose alias is the earlier candidate and the target
          have hearlierAlias := hregistered earlier hearlier
          rw [hkeeps.2 earlier hearlier hshape, hown] at hearlierAlias
          exact (Option.some.inj hearlierAlias).symm

/-- A document that is routed to another candidate than before breaks stability. -/
theorem not_clusterStable {routed : List (Node × CandidateId)} {node : Node}
    {first last : CandidateId} (hfirst : (node, first) ∈ routed) (hne : first ≠ last) :
    ¬ ClusterStable (routed ++ [(node, last)]) := by
  rw [ClusterStable, List.pairwise_append]
  intro hstable
  exact hne (hstable.2.2 _ hfirst _ (List.mem_singleton.mpr rfl) rfl)

/-- A completed ingest routes its document to the target. -/
theorem routed_granted (sha256 : Bytes → Digest) (source : String) (state : ClusterState)
    (candId : CandidateId) (node : Node) (nowMs : ℤ) :
    (clusterStep sha256 source state ⟨candId, node, nowMs, true, none⟩).routed =
      state.routed ++ [(node, targetId sha256 state.store ⟨candId, node, source, nowMs⟩)] := by
  simp only [clusterStep, ClusterEvent.call, ingest_granted, routedTo]

/-- A completed ingest that takes the alias of a routed document away diverts that document. -/
theorem diverts_of_not_keepsAliases (hinv : ClusterInv sha256 source state)
    {candId : CandidateId} {node : Node} {nowMs : ℤ}
    (htakes : ¬ keepsAliases sha256 source state ⟨candId, node, nowMs, true, none⟩) :
    ∃ again : ClusterEvent, ¬ ClusterStable (clusterStep sha256 source
      (clusterStep sha256 source state ⟨candId, node, nowMs, true, none⟩) again).routed := by
  let call : IngestCall := ⟨candId, node, source, nowMs⟩
  have hentry : ∃ entry ∈ state.routed,
      clusterKey sha256 source entry.1 ∈ clusterKeys sha256 source node ∧
        state.store.clusters (clusterKey sha256 source entry.1) ≠
          clustered sha256 state.store call := by
    by_contra hnone
    apply htakes
    intro entry hmem hkey
    by_contra hne
    exact hnone ⟨entry, hmem, hkey, hne⟩
  rcases hentry with ⟨entry, hmem, hkey, hne⟩
  rw [hinv.registered entry hmem] at hne
  -- the alias ends up at the target, which is not the candidate of the document
  have htarget : targetId sha256 state.store call ≠ entry.2 := by
    intro heq
    cases hclustered : clustered sha256 state.store call with
    | none =>
        have hnone := List.findSome?_eq_none_iff.mp hclustered _ hkey
        rw [hinv.registered entry hmem] at hnone
        cases hnone
    | some id =>
        rw [hclustered] at hne
        exact hne (congrArg some ((targetId_of_clustered hclustered).symm.trans heq).symm)
  let next := clusterStep sha256 source state ⟨candId, node, nowMs, true, none⟩
  have hmoved : next.store.clusters (clusterKey sha256 source entry.1) =
      some (targetId sha256 state.store call) := by
    change (ingest sha256 state.store call true none).2.clusters _ = _
    rw [ingest_granted, applyWrites_cons, clusters_laterWrites, if_pos hkey]
  let again : ClusterEvent := ⟨candId, entry.1, nowMs, true, none⟩
  have hagain : targetId sha256 next.store (again.call source) =
      targetId sha256 state.store call :=
    targetId_of_clustered (clustered_of_registered hmoved)
  have hbefore : entry ∈ next.routed := by
    change entry ∈ (clusterStep sha256 source state _).routed
    rw [routed_granted]
    exact List.mem_append_left _ hmem
  apply Exists.intro again
  change ¬ ClusterStable (clusterStep sha256 source next again).routed
  rw [routed_granted]
  exact not_clusterStable hbefore fun heq ↦ htarget (hagain.symm.trans heq.symm)

/-- In every run of ingests that keep the clusters of earlier documents, documents of one shape are
routed to one candidate; and where a completed ingest would take the alias of an earlier document
away, the run can go on to route that document elsewhere. -/
theorem clustering_stable (sha256 : Bytes → Digest) (source : String) (start : ColdStore)
    (state : ClusterState)
    (reached : (clusterMachine sha256 source).ReachableFrom (keepsClusters sha256 source)
      ⟨start, []⟩ state) :
    ClusterStable state.routed ∧
      ∀ (candId : CandidateId) (node : Node) (nowMs : ℤ),
        ¬ keepsAliases sha256 source state ⟨candId, node, nowMs, true, none⟩ →
          ∃ again : ClusterEvent, ¬ ClusterStable (clusterStep sha256 source
            (clusterStep sha256 source state ⟨candId, node, nowMs, true, none⟩) again).routed := by
  have hinv : ClusterInv sha256 source state := by
    apply reached.invariant
    · constructor
      · intro entry hentry
        cases hentry
      · exact List.Pairwise.nil
    · intro state event next hinv hkeeps hstep
      cases hstep
      exact clusterInv_step hinv hkeeps
  constructor
  · exact hinv.stable
  · intro candId node nowMs htakes
    exact diverts_of_not_keepsAliases hinv htakes

/-! ### The alias of a document taken by another one -/

/-- An ingest of the source `orders` that nothing hinders. -/
def ordersEvent (keys : List String) : ClusterEvent :=
  ⟨.fromSourceAndDigest ordersSha256 "orders" (fingerprint ordersSha256 (shapeOf (numbers keys))),
    numbers keys, 0, true, none⟩

def ordersState (events : List ClusterEvent) : ClusterState :=
  events.foldl (clusterStep ordersSha256 "orders") ⟨.empty, []⟩

/-- `{"a":1}` twice in a row. -/
theorem clustering_stable_orders :
    ClusterStable (ordersState [ordersEvent ["a"], ordersEvent ["a"]]).routed ∧
      (ordersState [ordersEvent ["a"], ordersEvent ["a"]]).routed.length = 2 := by
  let first := ordersState [ordersEvent ["a"]]
  have hstart : keepsClusters ordersSha256 "orders" ⟨.empty, []⟩ (ordersEvent ["a"]) := by
    constructor <;> exact fun entry hentry ↦ nomatch hentry
  have hempty : ClusterInv ordersSha256 "orders" ⟨.empty, []⟩ := by
    constructor
    · exact fun entry hentry ↦ nomatch hentry
    · exact List.Pairwise.nil
  have hinv : ClusterInv ordersSha256 "orders" first := clusterInv_step hempty hstart
  have hrouted : ∀ entry ∈ first.routed, entry.1 = numbers ["a"] := by
    intro entry hentry
    change entry ∈ (clusterStep ordersSha256 "orders" ⟨.empty, []⟩ (ordersEvent ["a"])).routed
      at hentry
    rw [ordersEvent, routed_granted] at hentry
    rw [List.mem_singleton.mp hentry]
  have hkeeps : keepsClusters ordersSha256 "orders" first (ordersEvent ["a"]) := by
    constructor
    · intro entry hentry _
      have hregistered := hinv.registered entry hentry
      rw [hregistered]
      rw [hrouted entry hentry] at hregistered
      exact (clustered_of_registered hregistered).symm
    · intro entry hentry _
      rw [hrouted entry hentry]
      rfl
  have hreached : (clusterMachine ordersSha256 "orders").ReachableFrom
      (keepsClusters ordersSha256 "orders") ⟨.empty, []⟩
      (ordersState [ordersEvent ["a"], ordersEvent ["a"]]) :=
    (Machine.ReachableFrom.refl.step hstart rfl).step hkeeps rfl
  constructor
  · exact (clustering_stable ordersSha256 "orders" .empty _ hreached).1
  · change (clusterStep ordersSha256 "orders" first (ordersEvent ["a"])).routed.length = 2
    rw [ordersEvent, routed_granted]
    rfl

theorem routed_ordersState (events : List ClusterEvent) (keys : List String) :
    (ordersState (events ++ [ordersEvent keys])).routed = (ordersState events).routed ++
      [(numbers keys, targetId ordersSha256 (ordersState events).store
        ((ordersEvent keys).call "orders"))] := by
  rw [ordersState, List.foldl_append]
  exact routed_granted ordersSha256 "orders" (ordersState events) _ (numbers keys) 0

/-- After `{"a":1}` and `{"b":1}` became two candidates, `{"a":1,"b":1}` goes to the second one and
takes the alias of the first with it, so `{"a":1}` is now routed to the second candidate. -/
theorem clustering_unstable :
    ¬ ClusterStable (ordersState [ordersEvent ["a"], ordersEvent ["b"], ordersEvent ["a", "b"],
      ordersEvent ["a"]]).routed := by
  let first := targetId ordersSha256 (ordersState []).store ((ordersEvent ["a"]).call "orders")
  let before := ordersState [ordersEvent ["a"], ordersEvent ["b"], ordersEvent ["a", "b"]]
  have hfirst : (numbers ["a"], first) ∈ before.routed := by
    have hsecond := routed_ordersState [ordersEvent ["a"]] ["b"]
    have hthird := routed_ordersState [ordersEvent ["a"], ordersEvent ["b"]] ["a", "b"]
    rw [List.cons_append, List.nil_append] at hsecond
    rw [List.cons_append, List.cons_append, List.nil_append] at hthird
    rw [hthird, hsecond, ← List.nil_append [ordersEvent ["a"]], routed_ordersState]
    exact List.mem_append_left _ (List.mem_append_left _
      (List.mem_append_right _ List.mem_cons_self))
  have hlast := routed_ordersState
    [ordersEvent ["a"], ordersEvent ["b"], ordersEvent ["a", "b"]] ["a"]
  have hdiverted : first ≠ targetId ordersSha256 before.store
      ((ordersEvent ["a"]).call "orders") := by
    decide +kernel
  rw [List.cons_append, List.cons_append, List.cons_append, List.nil_append] at hlast
  rw [hlast]
  exact not_clusterStable hfirst hdiverted

end Deblob.Cold
