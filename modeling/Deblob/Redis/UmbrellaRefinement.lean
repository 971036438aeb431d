import Deblob.Redis.Umbrellas
import Deblob.Lib.Simulation

/-!
# The Redis umbrella store refines the in-memory one

Given the same operations one after the other, the two stores return the same, up to the order of
listings. The sets of the states are an index that every writing operation keeps: an umbrella is in
the set of the state of its record and in no other.
-/

namespace Deblob.Redis

open Lib
open Umbrella (UmbrellaState UmbrellaRecord StoredUmbrella TransformRecord UmbrellaBundle
  LineageAssertion StoreError StoreOp StoreAnswer InMemoryUmbrellaStore)

/-! ## What an operation writes and names -/

/-- The records an operation writes can be read again. -/
def WritesReadBack (serde : Serde) : StoreOp → Prop
  | .putUmbrella schema _ => serde.umbrella.ReadsBack schema
  | .putTransform transform => serde.transform.ReadsBack transform
  | .promoteBundle bundle => serde.umbrella.ReadsBack bundle.umbrella ∧
      ∀ transform ∈ bundle.transforms, serde.transform.ReadsBack transform
  | .putLineageAssertion assertion => serde.lineage.ReadsBack assertion
  | _ => True

def pairOf (transform : TransformRecord) : String × String :=
  (transform.umbrellaId, transform.childSchemaId)

/-- The pairs of an umbrella and a child whose transform an operation writes or reads. -/
def namedPairs : StoreOp → List (String × String)
  | .putTransform transform => [pairOf transform]
  | .getTransform umbrellaId childId => [(umbrellaId, childId)]
  | .promoteBundle bundle => bundle.transforms.map pairOf
  | _ => []

/-- Answers that differ in the order of a listing at most. -/
inductive SameAnswer : Except StoreError StoreAnswer → Except StoreError StoreAnswer → Prop
  | refl (answer : Except StoreError StoreAnswer) : SameAnswer answer answer
  | umbrellas {left right : List StoredUmbrella} (hperm : left.Perm right) :
      SameAnswer (.ok (.umbrellas left)) (.ok (.umbrellas right))
  | transforms {left right : List TransformRecord} (hperm : left.Perm right) :
      SameAnswer (.ok (.transforms left)) (.ok (.transforms right))

/-! ## Representation -/

def umbrellaHash (serde : Serde) : Option StoredUmbrella → UmbrellaHash
  | none => ⟨none, none⟩
  | some stored => ⟨some (serde.umbrella.encode stored.schema), some (stateStr stored.state)⟩

/-- Redis holds the texts of what the in-memory store holds, and its sets are the index of it. -/
structure Represents (serde : Serde) (pairs : List (String × String)) (redis : RedisUmbrella)
    (memory : InMemoryUmbrellaStore) : Prop where
  sortedUmbrellas : SortedKeys memory.umbrellas
  sortedTransforms : SortedKeys memory.transforms
  hashes : ∀ id, redis.hashes (umbKey id) = umbrellaHash serde (memory.getUmbrella id)
  umbrellas : ∀ id, ∀ stored ∈ memory.getUmbrella id, serde.umbrella.ReadsBack stored.schema
  states : ∀ id state, id ∈ redis.sets (stateIndex state) ↔
    ∃ stored ∈ memory.getUmbrella id, stored.state = state
  texts : ∀ pair ∈ pairs, redis.strings (transformKey pair.1 pair.2) =
    (memory.getTransform pair.1 pair.2).map serde.transform.encode
  transforms : ∀ pair : String × String, ∀ found ∈ memory.getTransform pair.1 pair.2,
    pair ∈ pairs ∧ serde.transform.ReadsBack found
  children : ∀ umbrellaId childId, childId ∈ redis.sets (transformsIndex umbrellaId) ↔
    (memory.getTransform umbrellaId childId).isSome
  lineageTexts : ∀ umbrellaId, redis.strings (lineageKey umbrellaId) =
    (memory.getLineageAssertion umbrellaId).map serde.lineage.encode
  lineage : ∀ umbrellaId, ∀ found ∈ memory.getLineageAssertion umbrellaId,
    serde.lineage.ReadsBack found

theorem represents_new (serde : Serde) (pairs : List (String × String)) :
    Represents serde pairs .empty .new := by
  constructor
  case sortedUmbrellas => exact List.Pairwise.nil
  case sortedTransforms => exact List.Pairwise.nil
  case hashes => exact fun id ↦ rfl
  case umbrellas => exact fun id stored hstored ↦ nomatch hstored
  case states =>
    intro id state
    constructor
    · exact fun hmem ↦ absurd hmem (Finset.notMem_empty id)
    · exact fun ⟨stored, hstored, _⟩ ↦ nomatch hstored
  case texts => exact fun pair hpair ↦ rfl
  case transforms => exact fun pair found hfound ↦ nomatch hfound
  case children =>
    intro umbrellaId childId
    constructor
    · exact fun hmem ↦ absurd hmem (Finset.notMem_empty childId)
    · exact fun hsome ↦ nomatch hsome
  case lineageTexts => exact fun umbrellaId ↦ rfl
  case lineage => exact fun umbrellaId found hfound ↦ nomatch hfound

namespace Represents

variable {serde : Serde} {pairs : List (String × String)} {redis : RedisUmbrella}
  {memory : InMemoryUmbrellaStore}

/-! ### Reads -/

theorem getUmbrella (hrep : Represents serde pairs redis memory) (id : String) :
    redis.getUmbrella serde id = .ok (memory.getUmbrella id) := by
  unfold RedisUmbrella.getUmbrella
  rw [hrep.hashes]
  cases hstored : memory.getUmbrella id with
  | none => rfl
  | some stored =>
      have hdecode : serde.umbrella.decode (serde.umbrella.encode stored.schema) =
          .ok stored.schema := hrep.umbrellas id stored hstored
      simp only [umbrellaHash, Codec.read, hdecode, Except.mapError, parseState_stateStr]

theorem existsUmbrella (hrep : Represents serde pairs redis memory) (id : String) :
    redis.existsUmbrella id = (memory.getUmbrella id).isSome := by
  unfold RedisUmbrella.existsUmbrella
  rw [hrep.hashes]
  cases memory.getUmbrella id <;> rfl

theorem getTransform (hrep : Represents serde pairs redis memory) {umbrellaId childId : String}
    (hpair : (umbrellaId, childId) ∈ pairs) :
    redis.getTransform serde umbrellaId childId = .ok (memory.getTransform umbrellaId childId) := by
  unfold RedisUmbrella.getTransform
  rw [hrep.texts (umbrellaId, childId) hpair]
  apply Codec.ReadsBack.readOption_map
  exact fun found hfound ↦ (hrep.transforms (umbrellaId, childId) found hfound).2

theorem getLineageAssertion (hrep : Represents serde pairs redis memory) (umbrellaId : String) :
    redis.getLineageAssertion serde umbrellaId = .ok (memory.getLineageAssertion umbrellaId) := by
  unfold RedisUmbrella.getLineageAssertion
  rw [hrep.lineageTexts umbrellaId]
  exact Codec.ReadsBack.readOption_map (hrep.lineage umbrellaId)

theorem listUmbrellas (hrep : Represents serde pairs redis memory) {state : UmbrellaState}
    {members : List String} (hmembers : Enumerates members (redis.sets (stateIndex state))) :
    ∃ found, redis.listUmbrellas serde members = .ok found ∧
      (memory.listUmbrellas state).Perm found := by
  apply Exists.intro (members.filterMap memory.getUmbrella)
  constructor
  · exact collectFound_ok fun id _ ↦ hrep.getUmbrella id
  · unfold InMemoryUmbrellaStore.listUmbrellas
    rw [List.filter_map]
    apply hrep.sortedUmbrellas.values_perm Function.injective_id hmembers.1
    intro id
    have hindex := hrep.states id state
    rw [← hmembers.2, List.mem_toFinset] at hindex
    calc (∃ name ∈ members, name = id)
      _ ↔ id ∈ members := exists_eq_right
      _ ↔ ∃ stored ∈ memory.getUmbrella id, stored.state = state := hindex
      _ ↔ ∃ stored, (id, stored) ∈ memory.umbrellas ∧ decide (stored.state = state) = true := by
        simp only [hrep.sortedUmbrellas.mem_iff, decide_eq_true_eq]
        rfl

theorem listTransforms (hrep : Represents serde pairs redis memory) {umbrellaId : String}
    {members : List String}
    (hmembers : Enumerates members (redis.sets (transformsIndex umbrellaId))) :
    ∃ found, redis.listTransforms serde umbrellaId members = .ok found ∧
      (memory.listTransforms umbrellaId).Perm found := by
  have hindex (childId : String) : childId ∈ members ↔
      (memory.getTransform umbrellaId childId).isSome := by
    rw [← hrep.children, ← hmembers.2, List.mem_toFinset]
  have hkey : Function.Injective fun childId : String ↦ toLex (umbrellaId, childId) :=
    fun left right heq ↦ congrArg Prod.snd heq
  apply Exists.intro (members.filterMap (memory.getTransform umbrellaId))
  constructor
  · apply collectFound_ok
    intro childId hchild
    rcases Option.isSome_iff_exists.mp ((hindex childId).mp hchild) with ⟨found, hfound⟩
    exact hrep.getTransform (hrep.transforms (umbrellaId, childId) found hfound).1
  · apply hrep.sortedTransforms.values_perm hkey hmembers.1
    intro pair
    constructor
    · rintro ⟨childId, hchild, rfl⟩
      rcases Option.isSome_iff_exists.mp ((hindex childId).mp hchild) with ⟨found, hfound⟩
      exact ⟨found, hrep.sortedTransforms.mem_iff.mpr hfound, decide_eq_true rfl⟩
    · rintro ⟨found, hmem, humbrella⟩
      have hpair : toLex (umbrellaId, (ofLex pair).2) = pair := by
        rw [← of_decide_eq_true humbrella]
        rfl
      apply Exists.intro (ofLex pair).2
      constructor
      · rw [hindex, InMemoryUmbrellaStore.getTransform, hpair, getEntry,
          hrep.sortedTransforms.mem_iff.mp hmem]
        rfl
      · exact hpair

/-! ### Writes -/

/-- An umbrella's hash is written and its id moved to the set of its state. -/
theorem move (hrep : Represents serde pairs redis memory) {id : String} {stored : StoredUmbrella}
    {umbrellas : List (String × StoredUmbrella)} (hsorted : SortedKeys umbrellas)
    (hlookup : ∀ other, umbrellas.lookup other =
      if other = id then some stored else memory.getUmbrella other)
    (hreads : serde.umbrella.ReadsBack stored.schema) :
    Represents serde pairs
      { redis with
        hashes := Function.update redis.hashes (umbKey id) (umbrellaHash serde (some stored))
        sets := moveToState redis.sets id stored.state }
      { memory with umbrellas } := by
  constructor
  case sortedUmbrellas => exact hsorted
  case sortedTransforms => exact hrep.sortedTransforms
  case hashes =>
    intro other
    unfold InMemoryUmbrellaStore.getUmbrella
    dsimp only
    rw [hlookup]
    by_cases hother : other = id
    · rw [hother, if_pos rfl, Function.update_self]
    · rw [if_neg hother, Function.update_of_ne (umbKey_injective.ne hother), hrep.hashes]
  case umbrellas =>
    intro other found hfound
    unfold InMemoryUmbrellaStore.getUmbrella at hfound
    rw [hlookup] at hfound
    split_ifs at hfound
    · rcases Option.mem_some_iff.mp hfound with rfl
      exact hreads
    · exact hrep.umbrellas other found hfound
  case states =>
    intro other state
    unfold InMemoryUmbrellaStore.getUmbrella
    rw [mem_moveToState, hlookup]
    split_ifs with hother
    · simp [eq_comm]
    · exact hrep.states other state
  case texts => exact hrep.texts
  case transforms => exact hrep.transforms
  case children =>
    intro umbrellaId childId
    dsimp only
    rw [moveToState_of_ne fun other ↦ stateIndex_ne_transformsIndex other umbrellaId]
    exact hrep.children umbrellaId childId
  case lineageTexts => exact hrep.lineageTexts
  case lineage => exact hrep.lineage

theorem putUmbrella (hrep : Represents serde pairs redis memory) {schema : UmbrellaRecord}
    (hreads : serde.umbrella.ReadsBack schema) (state : UmbrellaState) :
    Represents serde pairs (redis.putUmbrella serde schema state)
      (memory.putUmbrella schema state) := by
  have hsorted := sortedKeys_insertWith hrep.sortedUmbrellas schema.umbrellaId
    ⟨schema, state⟩ fun _ ↦ ⟨schema, state⟩
  have hlookup (other : String) := lookup_insert memory.umbrellas schema.umbrellaId other
    (⟨schema, state⟩ : StoredUmbrella)
  exact hrep.move hsorted hlookup hreads

theorem setState (hrep : Represents serde pairs redis memory) (id : String)
    (state : UmbrellaState) : (memory.setState id state).1 = (redis.setState id state).1 ∧
      Represents serde pairs (redis.setState id state).2 (memory.setState id state).2 := by
  unfold RedisUmbrella.setState InMemoryUmbrellaStore.setState
  rw [hrep.existsUmbrella]
  cases hstored : memory.umbrellas.lookup id with
  | none =>
      have hnone : memory.getUmbrella id = none := hstored
      rw [hnone]
      exact ⟨rfl, hrep⟩
  | some stored =>
      have hsome : memory.getUmbrella id = some stored := hstored
      have hsorted := sortedKeys_insertWith hrep.sortedUmbrellas id { stored with state }
        fun stored ↦ { stored with state }
      have hlookup (other : String) := lookup_insertWith hrep.sortedUmbrellas id other
        { stored with state } fun stored ↦ { stored with state }
      rw [hstored] at hlookup
      have hmoved := hrep.move hsorted hlookup (hrep.umbrellas id stored hsome)
      rw [hsome]
      constructor
      · rfl
      · unfold RedisUmbrella.writeState
        rw [hrep.hashes, hsome]
        exact hmoved

theorem putTransform (hrep : Represents serde pairs redis memory) (hapart : KeysApart pairs)
    {transform : TransformRecord} (hpair : pairOf transform ∈ pairs)
    (hreads : serde.transform.ReadsBack transform) :
    Represents serde pairs (redis.putTransform serde transform)
      (memory.putTransform transform) := by
  constructor
  case sortedUmbrellas => exact hrep.sortedUmbrellas
  case sortedTransforms => exact sortedKeys_insertWith hrep.sortedTransforms _ _ _
  case hashes => exact hrep.hashes
  case umbrellas => exact hrep.umbrellas
  case states =>
    intro id state
    unfold RedisUmbrella.putTransform
    rw [KeyedSets.mem_sadd, or_iff_right fun hkey ↦ stateIndex_ne_transformsIndex _ _ hkey.1]
    exact hrep.states id state
  case texts =>
    intro pair hmem
    rw [InMemoryUmbrellaStore.getTransform_putTransform]
    unfold RedisUmbrella.putTransform
    dsimp only
    split_ifs with heq
    · rcases Prod.mk.inj heq with ⟨humbrella, hchild⟩
      rw [humbrella, hchild, Function.update_self]
      rfl
    · have hkey : transformKey pair.1 pair.2 ≠
          transformKey transform.umbrellaId transform.childSchemaId :=
        fun hkey ↦ heq (hapart pair hmem (pairOf transform) hpair hkey)
      rw [Function.update_of_ne hkey]
      exact hrep.texts pair hmem
  case transforms =>
    intro pair found hfound
    rw [InMemoryUmbrellaStore.getTransform_putTransform] at hfound
    split_ifs at hfound with heq
    · rcases Option.mem_some_iff.mp hfound with rfl
      have hpairOf : pair = pairOf transform := heq
      exact ⟨hpairOf ▸ hpair, hreads⟩
    · exact hrep.transforms pair found hfound
  case children =>
    intro umbrellaId childId
    rw [InMemoryUmbrellaStore.getTransform_putTransform]
    unfold RedisUmbrella.putTransform
    rw [KeyedSets.mem_sadd, transformsIndex_injective.eq_iff, hrep.children, ← Prod.mk_inj]
    split_ifs with heq <;> simp [heq]
  case lineageTexts =>
    intro umbrellaId
    unfold RedisUmbrella.putTransform
    dsimp only
    rw [Function.update_of_ne (transformKey_ne_lineageKey _ _ umbrellaId).symm]
    exact hrep.lineageTexts umbrellaId
  case lineage => exact hrep.lineage

theorem putTransforms (hrep : Represents serde pairs redis memory) (hapart : KeysApart pairs)
    {transforms : List TransformRecord}
    (hpairs : ∀ transform ∈ transforms, pairOf transform ∈ pairs)
    (hreads : ∀ transform ∈ transforms, serde.transform.ReadsBack transform) :
    Represents serde pairs (transforms.foldl (RedisUmbrella.putTransform serde) redis)
      (transforms.foldl InMemoryUmbrellaStore.putTransform memory) := by
  induction transforms generalizing redis memory with
  | nil => exact hrep
  | cons transform transforms ih =>
      rcases List.forall_mem_cons.mp hpairs with ⟨hpair, hpairs⟩
      rcases List.forall_mem_cons.mp hreads with ⟨hread, hreads⟩
      exact ih (hrep.putTransform hapart hpair hread) hpairs hreads

theorem putLineageAssertion (hrep : Represents serde pairs redis memory)
    {assertion : LineageAssertion} (hreads : serde.lineage.ReadsBack assertion) :
    Represents serde pairs (redis.putLineageAssertion serde assertion)
      (memory.putLineageAssertion assertion) := by
  constructor
  case sortedUmbrellas => exact hrep.sortedUmbrellas
  case sortedTransforms => exact hrep.sortedTransforms
  case hashes => exact hrep.hashes
  case umbrellas => exact hrep.umbrellas
  case states => exact hrep.states
  case texts =>
    intro pair hmem
    unfold RedisUmbrella.putLineageAssertion
    dsimp only
    rw [Function.update_of_ne (transformKey_ne_lineageKey _ _ _)]
    exact hrep.texts pair hmem
  case transforms => exact hrep.transforms
  case children => exact hrep.children
  case lineageTexts =>
    intro umbrellaId
    rw [InMemoryUmbrellaStore.getLineageAssertion_put]
    unfold RedisUmbrella.putLineageAssertion
    dsimp only
    split_ifs with heq
    · rw [heq, Function.update_self]
      rfl
    · rw [Function.update_of_ne (lineageKey_injective.ne heq)]
      exact hrep.lineageTexts umbrellaId
  case lineage =>
    intro umbrellaId found hfound
    rw [InMemoryUmbrellaStore.getLineageAssertion_put] at hfound
    split_ifs at hfound
    · rcases Option.mem_some_iff.mp hfound with rfl
      exact hreads
    · exact hrep.lineage umbrellaId found hfound

/-! ### Operations -/

/-- Each operation answers the same on both sides and keeps the representation. -/
theorem apply (hrep : Represents serde pairs redis memory) (hapart : KeysApart pairs)
    {op : StoreOp} {members : List String} (hreads : WritesReadBack serde op)
    (hpairs : namedPairs op ⊆ pairs) {answer : Except StoreError StoreAnswer}
    {next : RedisUmbrella} (happly : redis.apply serde op members = some (answer, next)) :
    SameAnswer (memory.apply op).1 answer ∧ Represents serde pairs next (memory.apply op).2 := by
  cases op with
  | putUmbrella schema state =>
      cases happly
      exact ⟨.refl _, hrep.putUmbrella hreads state⟩
  | getUmbrella id =>
      rcases Prod.mk.inj (Option.some.inj happly) with ⟨rfl, rfl⟩
      rw [hrep.getUmbrella]
      exact ⟨.refl _, hrep⟩
  | setState id state =>
      have hstep := hrep.setState id state
      have hresult : redis.setState id state = (answer, next) := Option.some.inj happly
      rw [hresult] at hstep
      change SameAnswer (memory.setState id state).1 answer ∧ _
      rw [hstep.1]
      exact ⟨.refl _, hstep.2⟩
  | listUmbrellas state =>
      unfold RedisUmbrella.apply at happly
      dsimp only at happly
      split_ifs at happly with hmembers
      rcases hrep.listUmbrellas hmembers with ⟨found, hfound, hperm⟩
      rw [hfound] at happly
      cases happly
      exact ⟨.umbrellas hperm, hrep⟩
  | putTransform transform =>
      cases happly
      exact ⟨.refl _, hrep.putTransform hapart (hpairs List.mem_cons_self) hreads⟩
  | getTransform umbrellaId childId =>
      rcases Prod.mk.inj (Option.some.inj happly) with ⟨rfl, rfl⟩
      rw [hrep.getTransform (hpairs List.mem_cons_self)]
      exact ⟨.refl _, hrep⟩
  | listTransforms umbrellaId =>
      unfold RedisUmbrella.apply at happly
      dsimp only at happly
      split_ifs at happly with hmembers
      rcases hrep.listTransforms hmembers with ⟨found, hfound, hperm⟩
      rw [hfound] at happly
      cases happly
      exact ⟨.transforms hperm, hrep⟩
  | promoteBundle bundle =>
      simp only [RedisUmbrella.apply, RedisUmbrella.promoteBundle] at happly
      simp only [InMemoryUmbrellaStore.apply, InMemoryUmbrellaStore.promoteBundle]
      cases hbundle : bundle.mismatch with
      | some error =>
          rw [hbundle] at happly
          cases happly
          exact ⟨.refl _, hrep⟩
      | none =>
          rw [hbundle] at happly
          cases happly
          rw [RedisUmbrella.writeBundle_eq hbundle]
          constructor
          · exact .refl _
          · apply (hrep.putUmbrella hreads.1 .active).putTransforms hapart
            · exact fun transform hmem ↦ hpairs (List.mem_map_of_mem hmem)
            · exact hreads.2
  | putLineageAssertion assertion =>
      cases happly
      exact ⟨.refl _, hrep.putLineageAssertion hreads⟩
  | getLineageAssertion umbrellaId =>
      rcases Prod.mk.inj (Option.some.inj happly) with ⟨rfl, rfl⟩
      rw [hrep.getLineageAssertion]
      exact ⟨.refl _, hrep⟩

end Represents

/-! ## The sets of the states -/

/-- The sets of the states hold the ids whose hash has that state, and a record comes with a
state. -/
structure StatesIndexed (redis : RedisUmbrella) : Prop where
  members : ∀ id state, id ∈ redis.sets (stateIndex state) ↔
    (redis.hashes (umbKey id)).state = some (stateStr state)
  recorded : ∀ id, (redis.hashes (umbKey id)).record.isSome →
    ∃ state, (redis.hashes (umbKey id)).state = some (stateStr state)

namespace StatesIndexed

variable {serde : Serde} {redis : RedisUmbrella}

/-- A write of a hash that moves its id to the set of the state it writes. -/
theorem move (hindexed : StatesIndexed redis) (id : String) (state : UmbrellaState)
    (record : Option String) : StatesIndexed { redis with
      hashes := Function.update redis.hashes (umbKey id) ⟨record, some (stateStr state)⟩
      sets := moveToState redis.sets id state } := by
  constructor
  case members =>
    intro other found
    dsimp only
    rw [mem_moveToState]
    split_ifs with hother
    · rw [hother, Function.update_self, Option.some_inj, stateStr_injective.eq_iff, eq_comm]
    · rw [Function.update_of_ne (umbKey_injective.ne hother)]
      exact hindexed.members other found
  case recorded =>
    intro other hrecord
    dsimp only at hrecord ⊢
    by_cases hother : other = id
    · rw [hother, Function.update_self]
      exact ⟨state, rfl⟩
    · rw [Function.update_of_ne (umbKey_injective.ne hother)] at hrecord ⊢
      exact hindexed.recorded other hrecord

theorem putTransform (hindexed : StatesIndexed redis) (transform : TransformRecord) :
    StatesIndexed (redis.putTransform serde transform) := by
  constructor
  case members =>
    intro id state
    unfold RedisUmbrella.putTransform
    rw [KeyedSets.mem_sadd, or_iff_right fun hkey ↦ stateIndex_ne_transformsIndex _ _ hkey.1]
    exact hindexed.members id state
  case recorded => exact hindexed.recorded

theorem apply (hindexed : StatesIndexed redis) {op : StoreOp} {members : List String}
    {answer : Except StoreError StoreAnswer} {next : RedisUmbrella}
    (happly : redis.apply serde op members = some (answer, next)) : StatesIndexed next := by
  cases op with
  | putUmbrella schema state =>
      cases happly
      exact hindexed.move schema.umbrellaId state _
  | setState id state =>
      simp only [RedisUmbrella.apply, RedisUmbrella.setState] at happly
      split_ifs at happly
      · cases happly
        exact hindexed.move id state _
      · cases happly
        exact hindexed
  | listUmbrellas | listTransforms =>
      unfold RedisUmbrella.apply at happly
      dsimp only at happly
      split_ifs at happly
      cases happly
      exact hindexed
  | putTransform transform =>
      cases happly
      exact hindexed.putTransform transform
  | promoteBundle bundle =>
      simp only [RedisUmbrella.apply, RedisUmbrella.promoteBundle] at happly
      cases hbundle : bundle.mismatch with
      | some error =>
          rw [hbundle] at happly
          cases happly
          exact hindexed
      | none =>
          rw [hbundle] at happly
          cases happly
          rw [RedisUmbrella.writeBundle_eq hbundle]
          apply List.foldlRecOn (motive := StatesIndexed)
          · exact hindexed.move bundle.umbrella.umbrellaId .active _
          · exact fun store hstore transform _ ↦ hstore.putTransform transform
  | putLineageAssertion assertion =>
      cases happly
      exact ⟨hindexed.members, hindexed.recorded⟩
  | getUmbrella | getTransform | getLineageAssertion =>
      cases happly
      exact hindexed

end StatesIndexed

/-! ## Runs -/

/-- A call is an operation with what `SMEMBERS` returns to it. -/
def redisStep (serde : Serde) (redis : RedisUmbrella) (call : StoreOp × List String) :
    Option (Except StoreError StoreAnswer × RedisUmbrella) :=
  redis.apply serde call.1 call.2

theorem statesIndexed_runCalls {serde : Serde} {redis last : RedisUmbrella}
    (hindexed : StatesIndexed redis) {calls : List (StoreOp × List String)}
    {answers : List (Except StoreError StoreAnswer)}
    (hrun : runCalls (redisStep serde) redis calls = some (answers, last)) :
    StatesIndexed last := by
  induction calls generalizing redis answers with
  | nil =>
      cases hrun
      exact hindexed
  | cons call calls ih =>
      rcases Option.bind_eq_some_iff.mp hrun with ⟨⟨answer, next⟩, htaken, hrest⟩
      rcases Option.map_eq_some_iff.mp hrest with ⟨⟨others, final⟩, hothers, heq⟩
      cases heq
      exact ih (hindexed.apply htaken) hothers

theorem represents_runCalls {serde : Serde} {pairs : List (String × String)}
    {redis last : RedisUmbrella} {memory : InMemoryUmbrellaStore} (hapart : KeysApart pairs)
    {calls : List (StoreOp × List String)}
    (hcalls : ∀ call ∈ calls, WritesReadBack serde call.1 ∧ namedPairs call.1 ⊆ pairs)
    (hrep : Represents serde pairs redis memory)
    {answers : List (Except StoreError StoreAnswer)}
    (hrun : runCalls (redisStep serde) redis calls = some (answers, last)) :
    List.Forall₂ SameAnswer
        (runAll InMemoryUmbrellaStore.apply memory (calls.map Prod.fst)).1 answers ∧
      Represents serde pairs last
        (runAll InMemoryUmbrellaStore.apply memory (calls.map Prod.fst)).2 := by
  apply runCalls_simulated _ hrep hcalls hrun
  intro store ref call answer next hstore hcall htaken
  exact hstore.apply hapart hcall.1 hcall.2 htaken

/-- Some enumeration of the sets lets every operation answer. -/
theorem apply_enabled (serde : Serde) (redis : RedisUmbrella) (op : StoreOp) :
    ∃ members, (redis.apply serde op members).isSome := by
  have henumerates (set : Finset String) : Enumerates set.toList set :=
    ⟨set.nodup_toList, set.toList_toFinset⟩
  cases op with
  | listUmbrellas state =>
      apply Exists.intro (redis.sets (stateIndex state)).toList
      unfold RedisUmbrella.apply
      dsimp only
      rw [if_pos (henumerates _)]
      rfl
  | listTransforms umbrellaId =>
      apply Exists.intro (redis.sets (transformsIndex umbrellaId)).toList
      unfold RedisUmbrella.apply
      dsimp only
      rw [if_pos (henumerates _)]
      rfl
  | _ => exact ⟨[], rfl⟩

/-- All of a bundle or nothing: a bundle that is refused changes neither store; otherwise both put
the umbrella as active and every transform, whether or not there was a record. -/
def AllOrNothing (serde : Serde) (redis : RedisUmbrella) (memory : InMemoryUmbrellaStore)
    (bundle : UmbrellaBundle) : Prop :=
  match bundle.mismatch with
  | some error => redis.promoteBundle serde bundle = (.error error, redis) ∧
      memory.promoteBundle bundle = (.error error, memory)
  | none =>
    redis.promoteBundle serde bundle = (.ok .done, bundle.transforms.foldl
      (RedisUmbrella.putTransform serde) (redis.putUmbrella serde bundle.umbrella .active)) ∧
    memory.promoteBundle bundle = (.ok .done, bundle.transforms.foldl
      InMemoryUmbrellaStore.putTransform (memory.putUmbrella bundle.umbrella .active))

theorem allOrNothing (serde : Serde) (redis : RedisUmbrella) (memory : InMemoryUmbrellaStore)
    (bundle : UmbrellaBundle) : AllOrNothing serde redis memory bundle := by
  unfold AllOrNothing RedisUmbrella.promoteBundle InMemoryUmbrellaStore.promoteBundle
  cases hbundle : bundle.mismatch with
  | some error => exact ⟨rfl, rfl⟩
  | none => exact ⟨congrArg _ (RedisUmbrella.writeBundle_eq hbundle), rfl⟩

/-- In every run from empty stores, an umbrella with a record is in exactly one set, that of the
state in its hash, and promotions are all or nothing. If the written records can be read again and
no two transforms share a key, the stores answer the same up to the order of listings, and neither
is changed by setting the state of an umbrella that is not there. -/
theorem redis_refines_in_memory (serde : Serde) (calls : List (StoreOp × List String))
    (answers : List (Except StoreError StoreAnswer)) (redis : RedisUmbrella)
    (hrun : runCalls (redisStep serde) .empty calls = some (answers, redis)) :
    let run := runAll InMemoryUmbrellaStore.apply .new (calls.map Prod.fst)
    (∀ id state, id ∈ redis.sets (stateIndex state) ↔
      (redis.hashes (umbKey id)).state = some (stateStr state)) ∧
    (∀ id, (redis.hashes (umbKey id)).record.isSome →
      ∃! state, id ∈ redis.sets (stateIndex state)) ∧
    (∀ bundle, AllOrNothing serde redis run.2 bundle) ∧
    (∀ op, ∃ members, (redis.apply serde op members).isSome) ∧
    ((∀ call ∈ calls, WritesReadBack serde call.1) →
      KeysApart (calls.flatMap fun call ↦ namedPairs call.1) →
        List.Forall₂ SameAnswer run.1 answers ∧
        ∀ id state, run.2.getUmbrella id = none →
          redis.setState id state = (.error (.umbrellaNotFound id), redis) ∧
          run.2.setState id state = (.error (.umbrellaNotFound id), run.2)) := by
  intro run
  have hindexed : StatesIndexed redis := by
    apply statesIndexed_runCalls _ hrun
    constructor
    · intro id state
      constructor
      · exact fun hmem ↦ absurd hmem (Finset.notMem_empty id)
      · exact fun hstate ↦ nomatch hstate
    · exact fun id hrecord ↦ nomatch hrecord
  constructor
  · exact hindexed.members
  constructor
  · intro id hrecord
    rcases hindexed.recorded id hrecord with ⟨state, hstate⟩
    apply ExistsUnique.intro state
    · exact (hindexed.members id state).mpr hstate
    · intro other hother
      have hsame := (hindexed.members id other).mp hother
      rw [hstate] at hsame
      exact (stateStr_injective (Option.some.inj hsame)).symm
  constructor
  · exact allOrNothing serde redis run.2
  constructor
  · exact apply_enabled serde redis
  · intro hreads hapart
    have hcalls : ∀ call ∈ calls, WritesReadBack serde call.1 ∧
        namedPairs call.1 ⊆ calls.flatMap fun call ↦ namedPairs call.1 :=
      fun call hcall ↦ ⟨hreads call hcall, fun pair hpair ↦
        List.mem_flatMap.mpr ⟨call, hcall, hpair⟩⟩
    have hsimulated := represents_runCalls hapart hcalls (represents_new serde _) hrun
    constructor
    · exact hsimulated.1
    · intro id state hnone
      have hexists : redis.existsUmbrella id = false := by
        rw [hsimulated.2.existsUmbrella, hnone]
        rfl
      have hlookup : run.2.umbrellas.lookup id = none := hnone
      constructor
      · unfold RedisUmbrella.setState
        rw [hexists]
        rfl
      · unfold InMemoryUmbrellaStore.setState
        rw [hlookup]

/-! ### Sample records -/

def sampleUmbrella (id : String) : UmbrellaRecord := ⟨⟨[]⟩, id, "weather", 1⟩

def sampleTransform (umbrellaId childId : String) : TransformRecord :=
  ⟨⟨[]⟩, childId, umbrellaId, childId ++ "@1"⟩

/-- The JSON text of an umbrella without fields. -/
def umbrellaText (record : UmbrellaRecord) : String :=
  "\x7b\"umbrella_id\":\"" ++ record.umbrellaId ++ "\",\"label\":\"" ++ record.label ++
    "\",\"version\":" ++ toString record.version ++ ",\"fields\":[]\x7d"

/-- The JSON text of a transform without bindings. -/
def transformText (record : TransformRecord) : String :=
  "\x7b\"child_schema_id\":\"" ++ record.childSchemaId ++ "\",\"umbrella_id\":\"" ++
    record.umbrellaId ++ "\",\"child_revision\":\"" ++ record.childRevision ++
    "\",\"umbrella_revision\":\"" ++ record.umbrellaId ++
    "@1\",\"bindings\":[],\"unmapped_source_paths\":[]\x7d"

/-- The JSON text of a lineage assertion without members. -/
def lineageText (assertion : LineageAssertion) : String :=
  "\x7b\"umbrella_id\":\"" ++ assertion.umbrellaId ++ "\",\"umbrella_version\":" ++
    toString assertion.umbrellaVersion ++ ",\"members\":[],\"approved_reason\":\"" ++
    assertion.approvedReason ++ "\"\x7d"

/-- JSON for the sample records. -/
def sampleSerde : Serde where
  umbrella := .ofValues umbrellaText [sampleUmbrella "umb_a", sampleUmbrella "umb_b"]
  transform := .ofValues transformText [sampleTransform "a" "b:c", sampleTransform "a:b" "c"]
  lineage := .ofValues lineageText [⟨"umb_a", 1, [], "reviewed"⟩]

/-- What is read by the last call. -/
def lastRead (answers : List (Except StoreError StoreAnswer)) : List String :=
  match answers.getLast? with
  | some (.ok (.umbrellas found)) => found.map fun stored ↦ stored.schema.umbrellaId
  | some (.ok (.transform (some found))) => [found.umbrellaId, found.childSchemaId]
  | _ => []

/-- Two umbrellas are put, the later id first, and listed. -/
def listingRun : List (StoreOp × List String) :=
  [(.putUmbrella (sampleUmbrella "umb_b") .provisional, []),
    (.putUmbrella (sampleUmbrella "umb_a") .provisional, []),
    (.listUmbrellas .provisional, ["umb_b", "umb_a"])]

theorem redis_refines_in_memory_listing : ∃ answers redis,
    runCalls (redisStep sampleSerde) .empty listingRun = some (answers, redis) ∧
      List.Forall₂ SameAnswer
        (runAll InMemoryUmbrellaStore.apply .new (listingRun.map Prod.fst)).1 answers := by
  have hsome : (runCalls (redisStep sampleSerde) .empty listingRun).isSome := by
    decide +kernel
  rcases Option.isSome_iff_exists.mp hsome with ⟨⟨answers, redis⟩, hrun⟩
  have hfirst : sampleSerde.umbrella.ReadsBack (sampleUmbrella "umb_a") :=
    @Codec.readsBack_ofValues _ _ [] [sampleUmbrella "umb_b"] _ fun _ hother ↦ nomatch hother
  have hsecond : sampleSerde.umbrella.ReadsBack (sampleUmbrella "umb_b") := by
    apply @Codec.readsBack_ofValues _ _ [sampleUmbrella "umb_a"] []
    intro other hother
    rw [List.mem_singleton.mp hother]
    decide +kernel
  have hreads : ∀ call ∈ listingRun, WritesReadBack sampleSerde call.1 := by
    unfold listingRun
    rw [List.forall_mem_cons, List.forall_mem_cons, List.forall_mem_singleton]
    exact ⟨hsecond, hfirst, trivial⟩
  have hapart : KeysApart (listingRun.flatMap fun call ↦ namedPairs call.1) := by
    apply keysApart_of_noColon
    decide
  have hrefines := redis_refines_in_memory sampleSerde listingRun answers redis hrun
  exact ⟨answers, redis, hrun, (hrefines.2.2.2.2 hreads hapart).1⟩

/-- A bundle for an umbrella without a record. -/
def freshBundle : UmbrellaBundle := ⟨sampleUmbrella "umb_a", []⟩

/-- The transform of `c` in `a:b` is put, and that of `b:c` in `a` is read. -/
def collidingRun : List (StoreOp × List String) :=
  [(.putTransform (sampleTransform "a:b" "c"), []), (.getTransform "a" "b:c", [])]

/-- Redis lists in the order it returns the members, a promotion writes a record that was not there
to both stores, and the transforms of `a` and `a:b` can share a key. -/
theorem redis_differs :
    ((runCalls (redisStep sampleSerde) .empty listingRun).map (fun run ↦ lastRead run.1) =
        some ["umb_b", "umb_a"] ∧
      lastRead (runAll InMemoryUmbrellaStore.apply .new (listingRun.map Prod.fst)).1 =
        ["umb_a", "umb_b"]) ∧
    (RedisUmbrella.empty.existsUmbrella "umb_a" = false ∧
      (RedisUmbrella.empty.promoteBundle sampleSerde freshBundle).2.existsUmbrella "umb_a" = true ∧
      (InMemoryUmbrellaStore.new.promoteBundle freshBundle).2.umbrellas.length = 1) ∧
    ((runCalls (redisStep sampleSerde) .empty collidingRun).map (fun run ↦ lastRead run.1) =
        some ["a:b", "c"] ∧
      lastRead (runAll InMemoryUmbrellaStore.apply .new (collidingRun.map Prod.fst)).1 = []) := by
  decide +kernel

end Deblob.Redis
