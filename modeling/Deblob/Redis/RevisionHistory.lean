import Deblob.Lib.Groups
import Deblob.Redis.SemanticReads
import Mathlib.Data.String.Basic

/-!
# The history of a schema

The revisions of a schema are collected by a scan and sorted by their identifiers. Identifiers are
minted by the clients before the script decides which append comes first, and the scan may return a
key twice. So the history is the chain of the appends exactly if the scan repeats no key and every
revision has a larger identifier than the one it follows.
-/

namespace Deblob.Redis

open Core Lib

section

variable {Metadata : Type} (codec : MetadataCodec Metadata)

def revisionFromHash (hash : RevisionHash) : Except SemError (Revision Metadata) :=
  match codec.fromJson hash.metadataJson with
  | none => .error (.corruptMetadata hash.revisionId)
  | some metadata => .ok ⟨hash, metadata⟩

/-- The loop over the keys of the scan; a key that holds nothing is skipped. -/
def collectRevisions (store : SemStore) (schId : SchemaId) :
    List RevisionId → Except SemError (List (Revision Metadata))
  | [] => .ok []
  | id :: keys =>
    match store.revisions schId id with
    | none => collectRevisions store schId keys
    | some hash =>
      match revisionFromHash codec hash with
      | .error err => .error err
      | .ok revision => (collectRevisions store schId keys).map (revision :: ·)

def Revision.id (revision : Revision Metadata) : RevisionId := revision.hash.revisionId

def revisionKey (revision : Revision Metadata) : String := revision.id.asStr

/-- `keys` are the revisions whose keys the scan returned, in its order. -/
def revisions (store : SemStore) (schId : SchemaId) (keys : List RevisionId) :
    Except SemError (List (Revision Metadata)) :=
  (collectRevisions codec store schId keys).map (sortOn revisionKey)

end

/-- The scan returns every key that is present, at least once. -/
def ScanComplete (store : SemStore) (schId : SchemaId) (keys : List RevisionId) : Prop :=
  ∀ id, (store.revisions schId id).isSome → id ∈ keys

/-- The keys of a scan that hold a revision. -/
def storedKeys (store : SemStore) (schId : SchemaId) (keys : List RevisionId) : List RevisionId :=
  keys.filter fun id ↦ (store.revisions schId id).isSome

/-- Every revision is listed once, after its predecessor, and the active one comes last. -/
structure AppendOrder {Metadata : Type} (store : SemStore) (schId : SchemaId)
    (history : List (Revision Metadata)) : Prop where
  stored : ∀ revision ∈ history, store.revisions schId revision.id = some revision.hash
  once : ∀ id, (store.revisions schId id).isSome → (history.map Revision.id).count id = 1
  first : ∀ revision ∈ history.head?, revision.hash.previousRevisionId = none
  linked : history.IsChain fun earlier later ↦
    later.hash.previousRevisionId = some earlier.id
  last : history.getLast?.map Revision.id =
    (store.active schId).map ActivePointer.revisionId

/-- No revision has a smaller identifier than the one it follows. -/
def MintedInOrder (store : SemStore) (schId : SchemaId) : Prop :=
  ∀ id hash previous, store.revisions schId id = some hash →
    hash.previousRevisionId = some previous → previous.asStr < id.asStr

/-- The identifier is fresh, and larger than that of the active revision unless the call is a
replay. -/
def mintsLater {Metadata : Type} (store : SemStore) (call : AppendCall Metadata) : Prop :=
  mintsFresh store call ∧ (replayed store call = none →
    ∀ pointer ∈ store.active call.schId, pointer.revisionId.asStr < call.revisionId.asStr)

/-! ## Stored revisions -/

/-- Every revision is stored under its own identifier, with metadata that can be read. -/
def SoundRevisions {Metadata : Type} (codec : MetadataCodec Metadata) (store : SemStore) : Prop :=
  ∀ schId id hash, store.revisions schId id = some hash →
    hash.revisionId = id ∧ ∃ metadata, codec.fromJson hash.metadataJson = some metadata

section

variable {Metadata : Type} {codec : MetadataCodec Metadata} {store : SemStore}
  {call : AppendCall Metadata} {schId : SchemaId} {keys : List RevisionId}

/-- A revision after an append is the appended one or an older one. -/
theorem appendWrites_revisions_cases {id : RevisionId} {hash : RevisionHash}
    (hhash : (appendWrites codec store call).revisions schId id = some hash) :
    schId = call.schId ∧ id = call.revisionId ∧ hash = newRevision codec store call ∨
      store.revisions schId id = some hash := by
  by_cases hschema : schId = call.schId
  · subst hschema
    rw [appendWrites_revisions_self] at hhash
    by_cases hid : id = call.revisionId
    · rw [hid, Function.update_self] at hhash
      exact .inl ⟨rfl, hid, (Option.some.inj hhash).symm⟩
    · rw [Function.update_of_ne hid] at hhash
      exact .inr hhash
  · rw [appendWrites_revisions_of_ne hschema] at hhash
    exact .inr hhash

theorem soundRevisions_reachable (reached : (semMachine codec).Reachable mintsFresh store) :
    SoundRevisions codec store := by
  have hempty : SoundRevisions codec .empty := by
    rintro schId id hash ⟨⟩
  refine reached.invariant hempty ?_
  intro state call next hinv _ hstep
  cases hstep
  obtain ⟨hsame, -⟩ | ⟨-, happended⟩ := appendScript_cases codec state call
  · rwa [hsame]
  · rw [happended]
    intro schId id hash hhash
    obtain ⟨-, rfl, rfl⟩ | hold := appendWrites_revisions_cases hhash
    · exact ⟨rfl, call.metadata, codec.fromJson_toJson _⟩
    · exact hinv schId id hash hold

/-- An append after the active revision keeps the revisions of all schemas in order. -/
theorem mintedInOrder_appendWrites (hinv : ∀ schId, MintedInOrder store schId)
    (hlater : ∀ pointer ∈ store.active call.schId,
      pointer.revisionId.asStr < call.revisionId.asStr) (schId : SchemaId) :
    MintedInOrder (appendWrites codec store call) schId := by
  intro id hash previous hhash hprevious
  obtain ⟨-, rfl, rfl⟩ | hold := appendWrites_revisions_cases hhash
  · obtain ⟨pointer, hpointer, rfl⟩ := Option.map_eq_some_iff.mp hprevious
    exact hlater pointer hpointer
  · exact hinv schId id hash previous hold hprevious

/-- As long as every append mints a larger identifier than the active one, all are in order. -/
theorem mintedInOrder_reachable (reached : (semMachine codec).Reachable mintsLater store)
    (schId : SchemaId) : MintedInOrder store schId := by
  induction reached generalizing schId with
  | refl => rintro id hash previous ⟨⟩
  | step _ hlater hstep ih =>
      rename_i state next call _
      cases hstep
      by_cases hreplay : replayed state call = none
      · obtain ⟨hsame, -⟩ | ⟨-, happended⟩ := appendScript_cases codec state call
        · rw [hsame]
          exact ih schId
        · rw [happended]
          exact mintedInOrder_appendWrites ih (hlater.2 hreplay) schId
      · obtain ⟨pointer, hpointer⟩ := Option.ne_none_iff_exists'.mp hreplay
        have hsame : (appendScript codec state call).2 = state := by
          rw [appendScript, hpointer]
        rw [hsame]
        exact ih schId

/-! ## The sorted history -/

/-- What is collected are the revisions of the stored keys, in the order of the scan. -/
theorem collectRevisions_eq (hsound : SoundRevisions codec store) (schId : SchemaId)
    (keys : List RevisionId) :
    ∃ found, collectRevisions codec store schId keys = .ok found ∧
      found.map Revision.id = storedKeys store schId keys ∧
      ∀ revision ∈ found, store.revisions schId revision.id = some revision.hash := by
  induction keys with
  | nil => exact ⟨[], rfl, rfl, fun _ hmem ↦ nomatch hmem⟩
  | cons id keys ih =>
      obtain ⟨found, hfound, hids, hstored⟩ := ih
      cases hhash : store.revisions schId id with
      | none =>
          refine ⟨found, ?_, ?_, hstored⟩
          · rw [collectRevisions, hhash]
            exact hfound
          · rw [hids, storedKeys, storedKeys, List.filter_cons_of_neg (by simp [hhash])]
      | some hash =>
          obtain ⟨hid, metadata, hmetadata⟩ := hsound schId id hash hhash
          refine ⟨⟨hash, metadata⟩ :: found, ?_, ?_, ?_⟩
          · simp only [collectRevisions, hhash, revisionFromHash, hmetadata, hfound, Except.map]
          · rw [List.map_cons, hids, storedKeys, storedKeys,
              List.filter_cons_of_pos (by simp [hhash])]
            exact congrArg (· :: _) hid
          · rw [List.forall_mem_cons]
            refine ⟨?_, hstored⟩
            change store.revisions schId hash.revisionId = some hash
            rw [hid, hhash]

theorem RevisionId.asStr_injective : Function.Injective RevisionId.asStr := by
  rintro ⟨left⟩ ⟨right⟩ rfl
  rfl

/-- A chain, newest first, goes from the start through the predecessors to the first revision. -/
theorem IsChain.linked {revisions : RevisionId → Option RevisionHash} {start : Option RevisionId}
    {chain : List RevisionId} (hchain : IsChain revisions start chain) :
    chain.head? = start ∧
      chain.IsChain (fun newer older ↦ ∃ hash, revisions newer = some hash ∧
        hash.previousRevisionId = some older) ∧
      ∀ oldest ∈ chain.getLast?, ∃ hash, revisions oldest = some hash ∧
        hash.previousRevisionId = none := by
  induction chain generalizing start with
  | nil =>
      cases start with
      | none => exact ⟨rfl, List.isChain_nil, fun _ hmem ↦ nomatch hmem⟩
      | some id => exact absurd hchain (by simp [IsChain])
  | cons head rest ih =>
      cases start with
      | none => exact absurd hchain (by simp [IsChain])
      | some id =>
          obtain ⟨rfl, hash, hhash, hrest⟩ := hchain
          obtain ⟨hhead, hlinked, hlast⟩ := ih hrest
          refine ⟨rfl, List.isChain_cons.mpr ⟨fun next hnext ↦ ⟨hash, hhash, ?_⟩, hlinked⟩, ?_⟩
          · rw [← hhead]
            exact hnext
          · cases rest with
            | nil =>
                intro oldest holdest
                obtain rfl := Option.some.inj holdest
                exact ⟨hash, hhash, hhead.symm⟩
            | cons next rest =>
                rw [List.getLast?_cons_cons]
                exact hlast

/-- A chain in order is sorted, newest first. -/
theorem IsChain.pairwise {chain : List RevisionId}
    (hchain : IsChain (store.revisions schId) ((store.active schId).map ActivePointer.revisionId)
      chain) (horder : MintedInOrder store schId) :
    chain.reverse.Pairwise fun earlier later ↦ earlier.asStr < later.asStr := by
  have hdescending : chain.IsChain fun newer older ↦ older.asStr < newer.asStr :=
    hchain.linked.2.1.imp fun newer older ⟨hash, hhash, hprevious⟩ ↦
      horder newer hash older hhash hprevious
  have htrans : IsTrans RevisionId fun newer older ↦ older.asStr < newer.asStr :=
    ⟨fun _ _ _ hfirst hsecond ↦ hsecond.trans hfirst⟩
  exact List.pairwise_reverse.mpr hdescending.pairwise

/-- In order and without repetitions, the sorted history is the chain. -/
theorem map_id_sortOn_eq_reverse {chain : List RevisionId} (hchain : HasChain store schId chain)
    (horder : MintedInOrder store schId) {found : List (Revision Metadata)}
    (hids : found.map Revision.id = storedKeys store schId keys)
    (hnodup : (storedKeys store schId keys).Nodup) (hscan : ScanComplete store schId keys) :
    (sortOn revisionKey found).map Revision.id = chain.reverse := by
  have hdistinct : found.Pairwise fun left right ↦ revisionKey left ≠ revisionKey right := by
    rw [← hids] at hnodup
    exact (List.pairwise_map.mp hnodup).imp fun hne heq ↦
      hne (RevisionId.asStr_injective heq)
  have hsorted : ((sortOn revisionKey found).map Revision.id).Pairwise fun earlier later ↦
      earlier.asStr < later.asStr :=
    List.pairwise_map.mpr (pairwise_lt_sortOn hdistinct)
  refine eq_of_pairwise_lt hsorted (hchain.2.2.1.pairwise horder) fun id ↦ ?_
  have hmem : id ∈ (sortOn revisionKey found).map Revision.id ↔
      id ∈ storedKeys store schId keys := by
    rw [← hids]
    exact ((sortOn_perm revisionKey found).map Revision.id).mem_iff
  rw [hmem, List.mem_reverse, ← hchain.2.2.2, storedKeys, List.mem_filter]
  exact ⟨And.right, fun hstored ↦ ⟨hscan id hstored, hstored⟩⟩

/-- A list of stored revisions that runs through the chain is in append order. -/
theorem appendOrder_of_map_id {chain : List RevisionId} (hchain : HasChain store schId chain)
    {history : List (Revision Metadata)}
    (hstored : ∀ revision ∈ history, store.revisions schId revision.id = some revision.hash)
    (hids : history.map Revision.id = chain.reverse) : AppendOrder store schId history := by
  obtain ⟨hnodup, -, hlinks, hmem⟩ := hchain
  obtain ⟨hhead, hlinked, hlast⟩ := hlinks.linked
  refine ⟨hstored, fun id hid ↦ ?_, fun revision hrevision ↦ ?_, ?_, ?_⟩
  · rw [hids]
    exact List.count_eq_one_of_mem (List.nodup_reverse.mpr hnodup)
      (List.mem_reverse.mpr ((hmem id).mp hid))
  · have holdest : revision.id ∈ chain.getLast? := by
      rw [← List.head?_reverse, ← hids, List.head?_map]
      exact Option.mem_map_of_mem _ hrevision
    obtain ⟨hash, hhash, hnone⟩ := hlast _ holdest
    have hsame := (hstored revision (List.mem_of_mem_head? hrevision)).symm.trans hhash
    rw [Option.some.inj hsame, hnone]
  · have hlink : (history.map Revision.id).IsChain fun older newer ↦
        ∃ hash, store.revisions schId newer = some hash ∧
          hash.previousRevisionId = some older := by
      rw [hids]
      exact List.isChain_reverse.mpr hlinked
    refine ((List.isChain_map Revision.id).mp hlink).imp_of_mem_imp ?_
    rintro earlier later - hlater ⟨hash, hhash, hprevious⟩
    have hsame := (hstored later hlater).symm.trans hhash
    rw [Option.some.inj hsame, hprevious]
  · rw [← List.getLast?_map, hids, List.getLast?_reverse, hhead]

/-- A history in append order was scanned without repetitions and minted in order. -/
theorem mintedInOrder_of_appendOrder {found : List (Revision Metadata)}
    (hids : found.map Revision.id = storedKeys store schId keys)
    (horder : AppendOrder store schId (sortOn revisionKey found)) :
    (storedKeys store schId keys).Nodup ∧ MintedInOrder store schId := by
  have hnodup : ((sortOn revisionKey found).map Revision.id).Nodup := by
    rw [List.nodup_iff_count_le_one]
    intro id
    by_cases hmem : id ∈ (sortOn revisionKey found).map Revision.id
    · obtain ⟨revision, hrevision, rfl⟩ := List.mem_map.mp hmem
      exact (horder.once _ (by rw [horder.stored revision hrevision]; rfl)).le
    · rw [List.count_eq_zero_of_not_mem hmem]
      exact Nat.zero_le 1
  refine ⟨?_, fun id hash previous hhash hprevious ↦ ?_⟩
  · rw [← hids]
    exact ((sortOn_perm revisionKey found).map Revision.id).nodup_iff.mp hnodup
  · have hcount := horder.once id (by rw [hhash]; rfl)
    have hmem : id ∈ (sortOn revisionKey found).map Revision.id :=
      List.count_pos_iff.mp (hcount ▸ Nat.one_pos)
    obtain ⟨revision, hrevision, rfl⟩ := List.mem_map.mp hmem
    obtain rfl := Option.some.inj ((horder.stored revision hrevision).symm.trans hhash)
    obtain ⟨before, after, hsplit⟩ := List.append_of_mem hrevision
    have hsorted := pairwise_sortOn revisionKey found
    have hlinked := horder.linked
    have hfirst := horder.first
    rw [hsplit] at hsorted hlinked hfirst hnodup
    cases before using List.reverseRecOn with
    | nil =>
        rw [hfirst revision rfl] at hprevious
        cases hprevious
    | append_singleton before earlier =>
        have hlink : revision.hash.previousRevisionId = some earlier.id :=
          (List.isChain_append.mp hlinked).2.2 earlier (by simp) revision rfl
        obtain rfl := Option.some.inj (hlink.symm.trans hprevious)
        have hle : revisionKey earlier ≤ revisionKey revision :=
          (List.pairwise_append.mp hsorted).2.2 earlier (by simp) revision List.mem_cons_self
        refine lt_of_le_of_ne hle fun heq ↦ ?_
        have hsame := RevisionId.asStr_injective heq
        rw [List.map_append, List.map_append, List.map_cons, List.map_cons] at hnodup
        exact (List.nodup_append.mp hnodup).2.2 earlier.id (by simp) revision.id
          List.mem_cons_self hsame

/-- The history is in append order exactly if the scan repeats no key and identifiers grow along
the chain. -/
theorem revisions_appendOrder_iff (reached : (semMachine codec).Reachable mintsFresh store)
    (schId : SchemaId) {keys : List RevisionId} (hscan : ScanComplete store schId keys) :
    (∃ history, revisions codec store schId keys = .ok history ∧
        AppendOrder store schId history) ↔
      (storedKeys store schId keys).Nodup ∧ MintedInOrder store schId := by
  obtain ⟨found, hfound, hids, hstored⟩ :=
    collectRevisions_eq (soundRevisions_reachable reached) schId keys
  have hrevisions : revisions codec store schId keys = .ok (sortOn revisionKey found) := by
    rw [revisions, hfound]
    rfl
  constructor
  · rintro ⟨history, hhistory, horder⟩
    obtain rfl := Except.ok.inj (hrevisions.symm.trans hhistory)
    exact mintedInOrder_of_appendOrder hids horder
  · rintro ⟨hnodup, horder⟩
    obtain ⟨chain, hchain⟩ := (semConsistent_reachable reached).chain schId
    refine ⟨_, hrevisions, appendOrder_of_map_id hchain (fun revision hrevision ↦ ?_)
      (map_id_sortOn_eq_reverse hchain horder hids hnodup hscan)⟩
    exact hstored revision (mem_sortOn.mp hrevision)

end

/-- However the appends interleave, the history is their chain exactly if the scan repeats no key
and every revision has a larger identifier than its predecessor; so it is in every run whose appends
all mint a larger identifier than the active one. -/
theorem semantic_history {Metadata : Type} (codec : MetadataCodec Metadata) :
    (∀ store, (semMachine codec).Reachable mintsFresh store → ∀ schId keys,
      ScanComplete store schId keys →
      ((∃ history, revisions codec store schId keys = .ok history ∧
          AppendOrder store schId history) ↔
        (storedKeys store schId keys).Nodup ∧ MintedInOrder store schId)) ∧
    ∀ store, (semMachine codec).Reachable mintsLater store → ∀ schId keys,
      ScanComplete store schId keys → (storedKeys store schId keys).Nodup →
      ∃ history, revisions codec store schId keys = .ok history ∧
        AppendOrder store schId history := by
  refine ⟨fun store reached schId keys hscan ↦ revisions_appendOrder_iff reached schId hscan, ?_⟩
  intro store reached schId keys hscan hnodup
  have hfresh := reached.weaken fun _ _ hlater ↦ hlater.1
  exact (revisions_appendOrder_iff hfresh schId hscan).mpr
    ⟨hnodup, mintedInOrder_reachable reached schId⟩

/-- The first append of the schema, by a client whose clock is ahead. -/
def aheadAppend : AppendCall String :=
  { sampleAppend "61" none with revisionId := ⟨"rev_0198c0de-0002-7000-8000-000000000000"⟩ }

/-- The append that follows it, by a client whose clock is right. -/
def behindAppend : AppendCall String :=
  { sampleAppend "62" (some 1) with revisionId := ⟨"rev_0198c0de-0001-7000-8000-000000000000"⟩ }

def skewedStore : SemStore :=
  appendWrites textCodec (appendWrites textCodec .empty aheadAppend) behindAppend

/-- With skewed clocks the active revision is listed before its predecessor. -/
theorem history_inverted :
    (semMachine textCodec).Reachable mintsFresh skewedStore ∧
      ScanComplete skewedStore aheadAppend.schId
        [aheadAppend.revisionId, behindAppend.revisionId] ∧
      ¬ ∃ history, revisions textCodec skewedStore aheadAppend.schId
          [aheadAppend.revisionId, behindAppend.revisionId] = .ok history ∧
        AppendOrder skewedStore aheadAppend.schId history := by
  have hreached : (semMachine textCodec).Reachable mintsFresh skewedStore :=
    Machine.reachableFrom_replay [aheadAppend, behindAppend] rfl
  have hscan : ScanComplete skewedStore aheadAppend.schId
      [aheadAppend.revisionId, behindAppend.revisionId] := by
    intro id hid
    obtain ⟨hash, hhash⟩ := Option.isSome_iff_exists.mp hid
    obtain ⟨-, rfl, -⟩ | hold := appendWrites_revisions_cases hhash
    · simp
    · obtain ⟨-, rfl, -⟩ | hnone := appendWrites_revisions_cases hold
      · simp
      · cases hnone
  refine ⟨hreached, hscan, fun hordered ↦ ?_⟩
  have horder := ((revisions_appendOrder_iff hreached _ hscan).mp hordered).2
  have hless := horder behindAppend.revisionId _ aheadAppend.revisionId rfl rfl
  revert hless
  decide +kernel

end Deblob.Redis
