import Deblob.Redis.SemanticLog

/-!
# The semantic log under any interleaving

`SemConsistent` says that the stored revisions of a schema form one chain of as many revisions as
its etag counts, ending at the active pointer, and that every index entry comes from an active
pointer and every active pointer is indexed. A real append keeps it, everything else leaves the
store alone, and a rebuild of a consistent store finds nothing to change.
-/

namespace Deblob.Redis

open Core Lib

/-- The revisions met from `start` through the previous-revision links, newest first. -/
def IsChain (revisions : RevisionId → Option RevisionHash) :
    Option RevisionId → List RevisionId → Prop
  | none, [] => True
  | some id, head :: rest => id = head ∧
    ∃ revision, revisions id = some revision ∧ IsChain revisions revision.previousRevisionId rest
  | _, _ => False

/-- A revision outside a chain can be written without touching the chain. -/
theorem IsChain.update {revisions : RevisionId → Option RevisionHash} {start : Option RevisionId}
    {chain : List RevisionId} (hchain : IsChain revisions start chain) {id : RevisionId}
    (hfresh : id ∉ chain) (revision : RevisionHash) :
    IsChain (Function.update revisions id (some revision)) start chain := by
  induction chain generalizing start with
  | nil => cases start <;> exact hchain
  | cons head rest ih =>
      cases start with
      | none => exact hchain
      | some first =>
          obtain ⟨rfl, found, hfound, hrest⟩ := hchain
          rw [List.mem_cons, not_or] at hfresh
          refine ⟨rfl, found, ?_, ih hrest hfresh.2⟩
          rw [Function.update_of_ne (Ne.symm hfresh.1), hfound]

section

variable {Metadata : Type} (codec : MetadataCodec Metadata)

/-- The chain of one schema holds all its stored revisions, once each. -/
def HasChain (store : SemStore) (schId : SchemaId) (chain : List RevisionId) : Prop :=
  chain.Nodup ∧ chain.length = currentEtag store schId ∧
    IsChain (store.revisions schId) ((store.active schId).map ActivePointer.revisionId) chain ∧
    ∀ id, (store.revisions schId id).isSome ↔ id ∈ chain

structure SemConsistent (store : SemStore) : Prop where
  chain : ∀ schId, ∃ chain, HasChain store schId chain
  active : ∀ schId pointer, store.active schId = some pointer → ∃ revision metadata,
    store.revisions schId pointer.revisionId = some revision ∧ revision.semId = pointer.semId ∧
      codec.fromJson revision.metadataJson = some metadata ∧
      pointer.featureKeys = codec.featureKeys metadata
  index : ∀ semId schId, schId ∈ store.index semId ↔
    ∃ pointer, store.active schId = some pointer ∧ pointer.semId = semId
  sig : ∀ hex schId, schId ∈ store.sig hex ↔
    ∃ pointer, store.active schId = some pointer ∧ hex ∈ pointer.featureKeys
  activeSchemas : ∀ schId, schId ∈ store.activeSchemas ↔ (store.active schId).isSome

variable {codec} {store : SemStore} {call : AppendCall Metadata}

theorem semConsistent_empty : SemConsistent codec .empty where
  chain schId := ⟨[], by simp [HasChain, IsChain, SemStore.empty, currentEtag]⟩
  active := by simp [SemStore.empty]
  index := by simp [SemStore.empty]
  sig := by simp [SemStore.empty]
  activeSchemas := by simp [SemStore.empty]

/-- A script run changes nothing, unless it is the append of new content under the expected etag. -/
theorem appendScript_cases (codec : MetadataCodec Metadata) (store : SemStore)
    (call : AppendCall Metadata) :
    ((appendScript codec store call).2 = store ∧
      ∀ reply, (appendScript codec store call).1 = .ok reply → reply.outcome = .alreadyActive) ∨
    (call.expected = currentEtag store call.schId ∧
      appendScript codec store call = (.ok ⟨call.revisionId, call.semId,
        currentEtag store call.schId + 1, .appended⟩, appendWrites codec store call)) := by
  unfold appendScript
  cases replayed store call with
  | some pointer =>
      refine .inl ⟨rfl, ?_⟩
      rintro reply ⟨⟩
      rfl
  | none =>
      by_cases hreason : call.reason = ""
      · exact .inl (by simp [hreason])
      · by_cases hetag : call.expected = currentEtag store call.schId
        · exact .inr ⟨hetag, by simp [hreason, hetag]⟩
        · exact .inl (by simp [hreason, hetag])

@[simp]
theorem appendWrites_active_self : (appendWrites codec store call).active call.schId =
    some (newPointer codec store call) := by
  simp [appendWrites]

theorem appendWrites_active_of_ne {schId : SchemaId} (hne : schId ≠ call.schId) :
    (appendWrites codec store call).active schId = store.active schId := by
  simp [appendWrites, hne]

theorem appendWrites_revisions_of_ne {schId : SchemaId} (hne : schId ≠ call.schId) :
    (appendWrites codec store call).revisions schId = store.revisions schId := by
  simp [appendWrites, hne]

theorem appendWrites_revisions_self : (appendWrites codec store call).revisions call.schId =
    Function.update (store.revisions call.schId) call.revisionId
      (some (newRevision codec store call)) := by
  simp [appendWrites]

@[simp]
theorem currentEtag_appendWrites_self :
    currentEtag (appendWrites codec store call) call.schId =
      currentEtag store call.schId + 1 := by
  simp [currentEtag, newPointer]

theorem currentEtag_appendWrites_of_ne {schId : SchemaId} (hne : schId ≠ call.schId) :
    currentEtag (appendWrites codec store call) schId = currentEtag store schId := by
  simp [currentEtag, appendWrites_active_of_ne hne]

theorem mem_relink {index : KeyedSets SemanticId SchemaId} {old : Option SemanticId}
    {new semId : SemanticId} {schId found : SchemaId} :
    found ∈ relink index old new schId semId ↔ (semId = new ∧ found = schId) ∨
      (found ∈ index semId ∧ ¬ (old = some semId ∧ semId ≠ new ∧ found = schId)) := by
  unfold relink
  cases old with
  | none => simp
  | some old =>
      dsimp only
      split_ifs <;> simp only [KeyedSets.mem_sadd, KeyedSets.mem_srem] <;> grind

theorem mem_swapPostings {sig : KeyedSets String SchemaId} {old new : List String} {hex : String}
    {schId found : SchemaId} :
    found ∈ swapPostings sig old new schId hex ↔ (hex ∈ new ∧ found = schId) ∨
      (found ∈ sig hex ∧ ¬ (hex ∈ old ∧ found = schId)) := by
  simp only [swapPostings, KeyedSets.mem_saddEach, KeyedSets.mem_sremEach, List.mem_map,
    Prod.mk.injEq]
  grind

/-- Appending a minted revision extends the schema's chain by it. -/
theorem HasChain.append {chain : List RevisionId} (hchain : HasChain store call.schId chain)
    (hfresh : mintsFresh store call) :
    HasChain (appendWrites codec store call) call.schId (call.revisionId :: chain) := by
  obtain ⟨hnodup, hlength, hlinks, hstored⟩ := hchain
  have hnew : call.revisionId ∉ chain := by
    rw [← hstored]
    simpa [mintsFresh] using hfresh
  refine ⟨List.nodup_cons.mpr ⟨hnew, hnodup⟩, by simp [hlength], ?_, fun id ↦ ?_⟩
  · rw [appendWrites_active_self, appendWrites_revisions_self]
    refine ⟨rfl, newRevision codec store call, by simp [newPointer], ?_⟩
    exact hlinks.update hnew _
  · rw [appendWrites_revisions_self, List.mem_cons, ← hstored]
    by_cases hid : id = call.revisionId
    · simp [hid]
    · simp [hid]

theorem SemConsistent.append (hinv : SemConsistent codec store) (hfresh : mintsFresh store call) :
    SemConsistent codec (appendWrites codec store call) where
  chain schId := by
    by_cases hschema : schId = call.schId
    · subst hschema
      obtain ⟨chain, hchain⟩ := hinv.chain call.schId
      exact ⟨_, hchain.append hfresh⟩
    · obtain ⟨chain, hchain⟩ := hinv.chain schId
      refine ⟨chain, ?_⟩
      unfold HasChain
      rw [currentEtag_appendWrites_of_ne hschema, appendWrites_revisions_of_ne hschema,
        appendWrites_active_of_ne hschema]
      exact hchain
  active schId pointer hpointer := by
    by_cases hschema : schId = call.schId
    · subst hschema
      rw [appendWrites_active_self] at hpointer
      cases hpointer
      refine ⟨newRevision codec store call, call.metadata, ?_, rfl, codec.fromJson_toJson _, rfl⟩
      rw [appendWrites_revisions_self]
      simp [newPointer]
    · rw [appendWrites_active_of_ne hschema] at hpointer
      rw [appendWrites_revisions_of_ne hschema]
      exact hinv.active schId pointer hpointer
  index semId schId := by
    have hold := hinv.index semId schId
    simp only [appendWrites, mem_relink]
    by_cases hschema : schId = call.schId
    · subst hschema
      simp only [Function.update_self, Option.some.injEq, exists_eq_left', newPointer]
      cases hactive : store.active call.schId <;> grind
    · simp only [Function.update_of_ne hschema]
      grind
  sig hex schId := by
    have hold := hinv.sig hex schId
    simp only [appendWrites, mem_swapPostings]
    by_cases hschema : schId = call.schId
    · subst hschema
      simp only [Function.update_self, Option.some.injEq, exists_eq_left', newPointer]
      cases hactive : store.active call.schId <;> grind
    · simp only [Function.update_of_ne hschema]
      grind
  activeSchemas schId := by
    have hold := hinv.activeSchemas schId
    simp only [appendWrites, Finset.mem_insert]
    by_cases hschema : schId = call.schId
    · simp [hschema]
    · simp [hschema, hold]

theorem SemConsistent.script (hinv : SemConsistent codec store) (hfresh : mintsFresh store call) :
    SemConsistent codec (appendScript codec store call).2 := by
  rcases appendScript_cases codec store call with ⟨hsame, -⟩ | ⟨-, happended⟩
  · rw [hsame]
    exact hinv
  · rw [happended]
    exact hinv.append hfresh

theorem semConsistent_reachable
    (reached : (semMachine codec).Reachable mintsFresh store) : SemConsistent codec store := by
  refine reached.invariant semConsistent_empty ?_
  intro state call next hinv hfresh hstep
  cases hstep
  exact hinv.script hfresh

/-! ## What later states keep -/

/-- Etags only grow and stored revisions never change. -/
structure SemExtends (store later : SemStore) : Prop where
  etag : ∀ schId, currentEtag store schId ≤ currentEtag later schId
  revisions : ∀ schId id revision, store.revisions schId id = some revision →
    later.revisions schId id = some revision

theorem SemExtends.script {start : SemStore} (hextends : SemExtends start store)
    (hfresh : mintsFresh store call) :
    SemExtends start (appendScript codec store call).2 := by
  rcases appendScript_cases codec store call with ⟨hsame, -⟩ | ⟨-, happended⟩
  · rw [hsame]
    exact hextends
  rw [happended]
  refine ⟨fun schId ↦ ?_, fun schId id revision hstart ↦ ?_⟩
  · by_cases hschema : schId = call.schId
    · subst hschema
      simpa using (hextends.etag call.schId).trans (Nat.le_succ _)
    · rw [currentEtag_appendWrites_of_ne hschema]
      exact hextends.etag schId
  · have hold := hextends.revisions schId id revision hstart
    by_cases hschema : schId = call.schId
    · subst hschema
      have hid : id ≠ call.revisionId := by
        rintro rfl
        simp [mintsFresh, hold] at hfresh
      rw [appendWrites_revisions_self, Function.update_of_ne hid, hold]
    · rw [appendWrites_revisions_of_ne hschema, hold]

theorem semExtends_reachable {later : SemStore}
    (reached : (semMachine codec).ReachableFrom mintsFresh store later) :
    SemExtends store later := by
  refine reached.invariant ⟨fun _ ↦ le_rfl, fun _ _ _ hstored ↦ hstored⟩ ?_
  intro state call next hextends hfresh hstep
  cases hstep
  exact hextends.script hfresh

/-- Once an append went through, a later one expecting the same etag can only be a replay. -/
theorem appended_at_most_once {later : SemStore} {second : AppendCall Metadata}
    {reply again : AppendReply} (happended : (appendScript codec store call).1 = .ok reply)
    (hreal : reply.outcome = .appended)
    (reached : (semMachine codec).ReachableFrom mintsFresh (appendScript codec store call).2 later)
    (hschema : second.schId = call.schId) (hexpected : second.expected = call.expected)
    (hagain : (appendScript codec later second).1 = .ok again) :
    again.outcome = .alreadyActive := by
  have hgrow := (semExtends_reachable reached).etag call.schId
  rcases appendScript_cases codec store call with ⟨-, hreplay⟩ | ⟨hetag, hwrites⟩
  · simp [hreplay reply happended] at hreal
  rcases appendScript_cases codec later second with ⟨-, hreplay⟩ | ⟨hlater, -⟩
  · exact hreplay again hagain
  · rw [hwrites, currentEtag_appendWrites_self] at hgrow
    rw [hschema] at hlater
    omega

/-! ## The rebuild finds nothing to change -/

/-- The store with only the index entries of the schemas in `done`. -/
def onlyIndexed (store : SemStore) (done : List SchemaId) : SemStore :=
  { store with
    index := fun semId ↦ (store.index semId).filter (· ∈ done)
    sig := fun hex ↦ (store.sig hex).filter (· ∈ done)
    activeSchemas := store.activeSchemas.filter (· ∈ done) }

/-- Reindexing one more active schema restores exactly its entries. -/
theorem SemConsistent.rebuildOne (hinv : SemConsistent codec store) (count : ℕ)
    (done : List SchemaId) {schId : SchemaId} (hactive : (store.active schId).isSome) :
    rebuildOne codec (count, onlyIndexed store done) schId =
      .ok (count + 1, onlyIndexed store (done ++ [schId])) := by
  obtain ⟨pointer, hpointer⟩ := Option.isSome_iff_exists.mp hactive
  obtain ⟨revision, metadata, hrevision, hsem, hjson, hfeatures⟩ :=
    hinv.active schId pointer hpointer
  have hsame : Function.update store.active schId
      (some { pointer with featureKeys := codec.featureKeys metadata }) = store.active := by
    rw [← hfeatures, Function.update_eq_self_iff]
    exact hpointer.symm
  simp only [Redis.rebuildOne, onlyIndexed, hpointer, hrevision, hjson, hsame, Except.ok.injEq,
    Prod.mk.injEq, true_and]
  congr 1
  · funext semId
    ext found
    have hindex := hinv.index semId found
    simp only [KeyedSets.mem_sadd, Finset.mem_filter, List.mem_append, List.mem_singleton]
    grind
  · funext hex
    ext found
    have hsig := hinv.sig hex found
    simp only [KeyedSets.mem_saddEach, List.mem_map, Prod.mk.injEq, Finset.mem_filter,
      List.mem_append, List.mem_singleton]
    grind
  · ext found
    have hschemas := hinv.activeSchemas found
    simp only [Finset.mem_insert, Finset.mem_filter, List.mem_append, List.mem_singleton]
    grind

theorem SemConsistent.rebuild_keys (hinv : SemConsistent codec store) (count : ℕ)
    (done keys : List SchemaId) (hkeys : ∀ schId ∈ keys, (store.active schId).isSome) :
    keys.foldlM (Redis.rebuildOne codec) (count, onlyIndexed store done) =
      .ok (count + keys.length, onlyIndexed store (done ++ keys)) := by
  induction keys generalizing count done with
  | nil => simp [pure, Except.pure]
  | cons schId keys ih =>
      rw [List.forall_mem_cons] at hkeys
      rw [List.foldlM_cons, hinv.rebuildOne count done hkeys.1]
      have hrest := ih (count + 1) (done ++ [schId]) hkeys.2
      rw [List.append_assoc, List.singleton_append] at hrest
      simpa [bind, Except.bind, Nat.add_assoc, Nat.add_comm] using hrest

/-- A rebuild whose scan returns every annotated schema leaves the whole store as it was. -/
theorem SemConsistent.rebuild (hinv : SemConsistent codec store) {keys : List SchemaId}
    (hkeys : ∀ schId, schId ∈ keys ↔ (store.active schId).isSome) :
    rebuildSemanticIndex codec keys store = .ok (keys.length, store) := by
  have hempty : onlyIndexed store [] =
      { store with index := fun _ ↦ ∅, sig := fun _ ↦ ∅, activeSchemas := ∅ } := by
    simp [onlyIndexed]
  have hfull : onlyIndexed store keys = store := by
    have hindex : (fun semId ↦ (store.index semId).filter (· ∈ keys)) = store.index := by
      funext semId
      rw [Finset.filter_eq_self]
      intro schId hmem
      obtain ⟨pointer, hpointer, -⟩ := (hinv.index semId schId).mp hmem
      simp [hkeys, hpointer]
    have hsig : (fun hex ↦ (store.sig hex).filter (· ∈ keys)) = store.sig := by
      funext hex
      rw [Finset.filter_eq_self]
      intro schId hmem
      obtain ⟨pointer, hpointer, -⟩ := (hinv.sig hex schId).mp hmem
      simp [hkeys, hpointer]
    have hschemas : store.activeSchemas.filter (· ∈ keys) = store.activeSchemas := by
      rw [Finset.filter_eq_self]
      intro schId hmem
      rw [hkeys, ← hinv.activeSchemas]
      exact hmem
    unfold onlyIndexed
    rw [hindex, hsig, hschemas]
  have hrun := hinv.rebuild_keys 0 [] keys fun schId hmem ↦ (hkeys schId).mp hmem
  rw [hempty, List.nil_append, hfull, Nat.zero_add] at hrun
  exact hrun

end

/-- Metadata that is its own JSON text and its own only feature, for runs on fixed inputs. -/
def textCodec : MetadataCodec String := ⟨id, some, fun _ ↦ rfl, fun text ↦ [text]⟩

def sampleAppend (text : String) (expectedEtag : Option ℕ) : AppendCall String where
  schId := .fromDigest (.replicate 32 0)
  semId := .fromDigest (.replicate 32 1)
  canonicalBytesHex := text
  metadata := text
  actor := "actor"
  reasonCode := "correction"
  reason := "reason"
  recordedAt := 0
  effectiveFrom := 0
  revisionId := ⟨text⟩
  expectedEtag := expectedEtag

end Deblob.Redis
