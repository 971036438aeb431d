import Deblob.Http.Ingest
import Deblob.Kafka.Results

/-!
# One header law for both transports

The relay appends its headers to a list and the proxy inserts them into a map, yet both obey one
law: reserved names hold what deblob wrote and nothing else, and every header that is not dropped
keeps its values. No sender can choose its own tag.
-/

namespace Deblob

open Core

/-- What deblob writes under each reserved name. -/
def tagValues {V : Type*} (schemaId origin : V) (reason : Option V) (name : String) : List V :=
  if name = "deblob-schema-id" then [schemaId]
  else if name = "deblob-origin" then [origin]
  else if name = "deblob-quarantine-reason" then reason.toList
  else []

namespace Kafka

def Headers.values (headers : Headers) : Lib.Multimap String (Option Bytes) :=
  ⟨headers.map fun header ↦ (header.key, header.value)⟩

theorem Headers.getAll_append (front back : Headers) (key : String) :
    (Headers.values (front ++ back)).getAll key =
      front.values.getAll key ++ back.values.getAll key := by
  simp [values, Lib.Multimap.getAll]

/-- A header list that carries the tag and the origin of a record in place of its reserved
headers. -/
structure Tagged (schemaRef : SchemaRef) (cursor : SourceCursor) (inbound outbound : Headers) :
    Prop where
  order : outbound.filter (fun header ↦ !isReserved header.key) =
    inbound.filter fun header ↦ !isReserved header.key
  values : ∃ reason : Option QuarantineReason,
    Lib.Rewrites (fun key ↦ isReserved key = true) (fun _ ↦ False) (fun _ ↦ False)
      (tagValues (some (utf8 schemaRef.headerValue)) (some (utf8 (originValue cursor)))
        (reason.map fun reason ↦ some (utf8 (quarantineReasonValue reason))))
      inbound.values.getAll outbound.values.getAll

theorem getAll_ownHeaders (schemaRef : SchemaRef) (cursor : SourceCursor)
    (reason : Option QuarantineReason) (key : String) :
    (ownHeaders schemaRef cursor reason).values.getAll key =
      tagValues (some (utf8 schemaRef.headerValue)) (some (utf8 (originValue cursor)))
        (reason.map fun reason ↦ some (utf8 (quarantineReasonValue reason))) key := by
  unfold tagValues
  split_ifs with hschemaId horigin hreason
  · subst hschemaId
    cases reason <;> rfl
  · subst horigin
    cases reason <;> rfl
  · subst hreason
    cases reason <;> rfl
  · have hnone : ∀ header ∈ ownHeaders schemaRef cursor reason, header.key ≠ key := by
      intro header hmem
      cases reason with
      | none =>
          simp only [ownHeaders] at hmem
          grind [schemaIdHeader, originHeader]
      | some reason =>
          simp only [ownHeaders] at hmem
          grind [schemaIdHeader, originHeader, quarantineReasonHeader]
    simpa [Headers.values, Lib.Multimap.getAll] using hnone

theorem isReserved_of_mem_ownHeaders {schemaRef : SchemaRef} {cursor : SourceCursor}
    {reason : Option QuarantineReason} {header : Header}
    (hmem : header ∈ ownHeaders schemaRef cursor reason) : isReserved header.key = true := by
  have hnames : isReserved schemaIdHeader = true ∧ isReserved originHeader = true ∧
      isReserved quarantineReasonHeader = true := by decide
  cases reason with
  | none =>
      simp only [ownHeaders] at hmem
      grind
  | some reason =>
      simp only [ownHeaders] at hmem
      grind

/-- Stripping keeps the values of every key it does not drop. -/
theorem getAll_stripReserved (headers : Option Headers) (key : String) :
    (stripReserved headers).values.getAll key =
      if isReserved key then [] else (headers.getD []).values.getAll key := by
  unfold stripReserved Headers.values Lib.Multimap.getAll
  rw [List.filter_map, List.filter_map, List.filter_filter]
  split_ifs with hreserved
  · have hnone : (headers.getD []).filter
        (fun header ↦ decide (header.key = key) && !isReserved header.key) = [] := by
      rw [List.filter_eq_nil_iff]
      grind
    simpa using hnone
  · congr 2
    apply List.filter_congr
    grind

/-- Stripped headers followed by the relay's own ones obey the law. -/
theorem tagged_stripReserved (headers : Option Headers) (schemaRef : SchemaRef)
    (cursor : SourceCursor) (reason : Option QuarantineReason) :
    Tagged schemaRef cursor (headers.getD [])
      (stripReserved headers ++ ownHeaders schemaRef cursor reason) where
  order := by
    have hown : (ownHeaders schemaRef cursor reason).filter (fun header ↦ !isReserved header.key) =
        [] := by
      rw [List.filter_eq_nil_iff]
      intro header hmem
      simp [isReserved_of_mem_ownHeaders hmem]
    rw [List.filter_append, hown, List.append_nil]
    unfold stripReserved
    rw [List.filter_filter]
    simp
  values := by
    refine ⟨reason, ?_, ?_, ?_⟩
    · intro key hreserved
      rw [Headers.getAll_append, getAll_stripReserved, if_pos hreserved, List.nil_append,
        getAll_ownHeaders]
    · intro key _ hdropped
      exact hdropped.elim
    · intro key hreserved _ _
      have hown : (ownHeaders schemaRef cursor reason).values.getAll key = [] := by
        simp only [Headers.values, Lib.Multimap.getAll, List.map_eq_nil_iff,
          List.filter_eq_nil_iff, List.forall_mem_map]
        intro header hmem
        have hown := isReserved_of_mem_ownHeaders hmem
        grind
      rw [Headers.getAll_append, getAll_stripReserved, if_neg hreserved, hown, List.append_nil]

/-- Every message of a received record but its discovery evidence obeys the law. -/
theorem runTransactionBody_tagged {cfg : RelayCfg} {env : BatchEnv} {tp : TopicPartition}
    {raw : RawRecord} {settle : SettleState} {outcome : TransactionBody} {outputs : List Output}
    (hok : (runTransactionBody cfg env (raw.received tp) settle).1 = .ok (outcome, outputs)) :
    ∀ output ∈ outputs,
      if output.lane = .discovery then output.message.headers = []
      else Tagged (resultRef cfg env (raw.received tp) settle) (raw.cursor tp)
        (raw.headers.getD []) output.message.headers := by
  have hresult : Tagged (resultRef cfg env (raw.received tp) settle) (raw.cursor tp)
      (raw.headers.getD []) (resultOutput cfg env (raw.received tp) settle).message.headers := by
    rw [resultOutput_headers]
    exact tagged_stripReserved raw.headers _ _ _
  obtain ⟨discovery, hdiscovery, houtputs⟩ := runTransactionBody_cases hok
  have hevidence : ∀ output ∈ discovery,
      output.lane = .discovery ∧ output.message.headers = [] := by
    cases hdiscovery with
    | inl hnone => simp [hnone]
    | inr hone =>
        obtain ⟨candId, discoveryBytes, -, rfl⟩ := hone
        simp [discoveryOutput]
  intro output hmem
  obtain hmem | rfl :
      output ∈ discovery ∨ output = resultOutput cfg env (raw.received tp) settle := by
    grind
  · rw [if_pos (hevidence output hmem).1]
    exact (hevidence output hmem).2
  · rw [if_neg (resultOutput_lane cfg env (raw.received tp) settle)]
    exact hresult

end Kafka

namespace Http

/-- The values a name has on the wire, in whatever case it is spelled there. -/
def wireValues (wire : List (String × HeaderValue)) (name : HeaderName) : List HeaderValue :=
  (wire.filter fun field ↦ HeaderName.fromBytes field.1 = name).map Prod.snd

theorem getAll_ofWire (wire : List (String × HeaderValue)) (name : HeaderName) :
    (HeaderMap.ofWire wire).getAll name = wireValues wire name := by
  have hfold := Lib.Multimap.getAll_foldl_append (fun _ ↦ false)
    (wire.map fun field ↦ (HeaderName.fromBytes field.1, field.2)) .empty name
  rw [List.foldl_map] at hfold
  calc (HeaderMap.ofWire wire).getAll name
      = (⟨wire.map fun field ↦ (HeaderName.fromBytes field.1, field.2)⟩ : HeaderMap).getAll name :=
        hfold
    _ = wireValues wire name := by
        unfold wireValues Lib.Multimap.getAll
        rw [List.filter_map, List.map_map]
        rfl

/-- Forwarded headers that carry the tag and the origin of a request in place of its reserved
headers, without the hop-by-hop ones. A checked credential stays behind. -/
structure Tagged (state : ProxyState) (env : RequestEnv) (schemaRef : SchemaRef)
    (inbound outbound : HeaderName → List HeaderValue) : Prop where
  values : Lib.Rewrites (fun name ↦ isReserved name.asStr = true)
    (fun name ↦ isHopByHop name.asStr = true ∨
      state.ingestToken.isSome = true ∧ name = authorization)
    (fun name ↦ name = idempotencyKeyHeader)
    (fun name ↦ tagValues (schemaIdValue schemaRef)
      (originValue (state.originPrefix ++ "/" ++ env.originId.text)) none name.asStr)
    inbound outbound
  generatedKey : inbound idempotencyKeyHeader = [] →
    outbound idempotencyKeyHeader = [env.idempotencyKey.value]
  clientKey : ∀ key, inbound idempotencyKeyHeader = [key] → outbound idempotencyKeyHeader = [key]

/-- The listener's own names: both tags are reserved, and the key is an ordinary header. -/
theorem isReserved_ownNames : isReserved schemaIdHeader.asStr = true ∧
    isReserved originHeader.asStr = true ∧ isReserved idempotencyKeyHeader.asStr = false ∧
    isHopByHop idempotencyKeyHeader.asStr = false := by
  decide

theorem asStr_injective : Function.Injective HeaderName.asStr := by
  intro left right heq
  cases left
  cases right
  cases heq
  rfl

/-- What a listener puts under its reserved names is what the law prescribes. -/
theorem tagValues_asStr (schemaId origin : HeaderValue) (name : HeaderName) :
    tagValues schemaId origin none name.asStr =
      if originHeader = name then [origin] else if schemaIdHeader = name then [schemaId] else [] := by
  have hschemaId : name.asStr = "deblob-schema-id" ↔ schemaIdHeader = name :=
    ⟨fun heq ↦ (asStr_injective heq).symm, fun heq ↦ heq ▸ rfl⟩
  have horigin : name.asStr = "deblob-origin" ↔ originHeader = name :=
    ⟨fun heq ↦ (asStr_injective heq).symm, fun heq ↦ heq ▸ rfl⟩
  have hne : schemaIdHeader ≠ originHeader := by decide
  unfold tagValues
  simp only [hschemaId, horigin]
  grind

theorem getAll_withTag (headers : HeaderMap) (schemaRef : SchemaRef) (origin : String)
    (name : HeaderName) :
    (withTag headers schemaRef origin).getAll name =
      if originHeader = name then [originValue origin]
      else if schemaIdHeader = name then [schemaIdValue schemaRef]
      else headers.getAll name := by
  unfold withTag
  rw [Lib.Multimap.getAll_insert, Lib.Multimap.getAll_insert]

/-- The headers left of a request before deblob writes its own ones. -/
theorem getAll_own (state : ProxyState) (headers : HeaderMap) (name : HeaderName) :
    (if state.ingestToken.isSome then (stripReservedAndHopByHop headers).remove authorization
      else stripReservedAndHopByHop headers).getAll name =
      if isReserved name.asStr = true ∨ isHopByHop name.asStr = true ∨
        state.ingestToken.isSome = true ∧ name = authorization then []
      else headers.getAll name := by
  have hstrip := getAll_stripReservedAndHopByHop headers name
  simp only [Bool.or_eq_true] at hstrip
  by_cases hauth : state.ingestToken.isSome = true
  · rw [if_pos hauth, Lib.Multimap.getAll_remove, hstrip]
    grind
  · rw [if_neg hauth, hstrip]
    grind

theorem forwardHeaders_tagged (state : ProxyState) (env : RequestEnv) (headers : HeaderMap)
    (schemaRef : SchemaRef) :
    Tagged state env schemaRef headers.getAll
      (forwardHeaders state env headers schemaRef).getAll := by
  have hget (name : HeaderName) := getAll_ensureIdempotencyKey env.idempotencyKey
    (withTag (if state.ingestToken.isSome then
      (stripReservedAndHopByHop headers).remove authorization
      else stripReservedAndHopByHop headers) schemaRef
      (state.originPrefix ++ "/" ++ env.originId.text)) name
  simp only [getAll_withTag, getAll_own] at hget
  change ∀ name, (forwardHeaders state env headers schemaRef).getAll name = _ at hget
  obtain ⟨hschemaId, horigin, hkey, hhop⟩ := isReserved_ownNames
  have hauth : idempotencyKeyHeader ≠ authorization := by decide
  refine ⟨⟨?_, ?_, ?_⟩, ?_, ?_⟩
  · intro name hreserved
    rw [hget, tagValues_asStr]
    grind
  · intro name hreserved hdropped
    rw [hget]
    grind
  · intro name hreserved hdropped hfree
    rw [hget]
    grind
  · intro hnone
    rw [hget]
    grind
  · intro key hone
    rw [hget]
    grind

theorem upstreamResponse_tagged (schemaRef : SchemaRef) (status : ℕ) (headers : HeaderMap)
    (body : Bytes) :
    Lib.Rewrites (fun name ↦ isReserved name.asStr = true) (fun name ↦ isHopByHop name.asStr = true)
      (fun _ ↦ False) (fun name ↦ if schemaIdHeader = name then [schemaIdValue schemaRef] else [])
      headers.getAll
      (upstreamResponse schemaRef (.response status headers (some body))).headers.getAll := by
  have hget (name : HeaderName) :
      (upstreamResponse schemaRef (.response status headers (some body))).headers.getAll name =
        if schemaIdHeader = name then [schemaIdValue schemaRef]
        else if isReserved name.asStr || isHopByHop name.asStr then [] else headers.getAll name := by
    unfold upstreamResponse
    rw [Lib.Multimap.getAll_insert, getAll_stripReservedAndHopByHop]
  have hschemaId := isReserved_ownNames.1
  refine ⟨?_, ?_, ?_⟩
  · intro name hreserved
    rw [hget]
    grind
  · intro name hreserved hdropped
    rw [hget]
    grind
  · intro name hreserved hdropped _
    rw [hget]
    grind

end Http

/-- The tag of a message is deblob's own on either transport: whatever headers arrive, each message
of a record but its header-free discovery evidence, each forwarded request, and the response to it
obey the law. -/
theorem tags_notSpoofable :
    (∀ (cfg : Kafka.RelayCfg) (env : Kafka.BatchEnv) (tp : Kafka.TopicPartition)
      (raw : Kafka.RawRecord) (settle : Kafka.SettleState) (outcome : Kafka.TransactionBody)
      (outputs : List Kafka.Output),
      (Kafka.runTransactionBody cfg env (raw.received tp) settle).1 = .ok (outcome, outputs) →
      ∀ output ∈ outputs,
        if output.lane = .discovery then output.message.headers = []
        else Kafka.Tagged (Kafka.resultRef cfg env (raw.received tp) settle) (raw.cursor tp)
          (raw.headers.getD []) output.message.headers) ∧
    (∀ (state : Http.ProxyState) (env : Http.RequestEnv) (offset : ℕ)
      (wire : List (String × Http.HeaderValue)) (body : Bytes) (forwarded : Http.Request),
      (Http.ingestHandler state env offset ⟨.ofWire wire, body⟩).forwarded = some forwarded →
      Http.Tagged state env (state.classify state.originPrefix body).schemaRef
        (Http.wireValues wire) forwarded.headers.getAll ∧
      ∀ (status : ℕ) (upstream : List (String × Http.HeaderValue)) (upstreamBody : Bytes),
        env.upstream = .response status (.ofWire upstream) (some upstreamBody) →
        Lib.Rewrites (fun name ↦ Http.isReserved name.asStr = true)
          (fun name ↦ Http.isHopByHop name.asStr = true) (fun _ ↦ False)
          (fun name ↦ if Http.schemaIdHeader = name then
            [Http.schemaIdValue (state.classify state.originPrefix body).schemaRef] else [])
          (Http.wireValues upstream)
          (Http.ingestHandler state env offset ⟨.ofWire wire, body⟩).response.headers.getAll) := by
  constructor
  · intro cfg env tp raw settle outcome outputs hok
    exact Kafka.runTransactionBody_tagged hok
  · intro state env offset wire body forwarded hforwarded
    have hwire (wire : List (String × Http.HeaderValue)) :
        (Http.HeaderMap.ofWire wire).getAll = Http.wireValues wire :=
      funext (Http.getAll_ofWire wire)
    obtain ⟨-, hheaders, hhandled⟩ := Http.ingestHandler_of_forwarded hforwarded
    constructor
    · rw [hheaders, ← hwire]
      exact Http.forwardHeaders_tagged ..
    · intro status upstream upstreamBody hupstream
      rw [hhandled, hupstream, ← hwire]
      exact Http.upstreamResponse_tagged ..

/-! ## A request that loses its credential -/

namespace Http

/-- A listener that asks for a token and takes every body for an unresolved one. -/
def guardedState : ProxyState where
  classify _ _ := .unresolved
  discovery := false
  route := ⟨"http", some "upstream", some 80, "/"⟩
  upstreamAllowlist := [⟨"http", some "upstream", some 80, "/"⟩]
  originPrefix := "http/127.0.0.1:8088"
  maxBodyBytes := 1024
  maxHeaderBytes := 8192
  maxHeaderCount := 100
  ingestToken := some (utf8 "t")

def quietEnv : RequestEnv where
  originId := firstUuid
  idempotencyKey := secondUuid
  upstream := .response 200 .empty (some [])

def bearer : HeaderValue := ⟨utf8 "Bearer t", by decide⟩

end Http

/-- A forged tag does not get past the relay, nor a forged origin past the proxy. -/
theorem tags_notSpoofable_forged :
    (∃ outputs, (Kafka.runTransactionBody Kafka.singleRecordCfg Kafka.healthyEnv
        (Kafka.forgedRecord.received ("raw", 0)) (.new {})).1 = .ok (.produced, outputs) ∧
      ∀ output ∈ outputs, if output.lane = .discovery then output.message.headers = []
        else Kafka.Tagged .tombstone ⟨"raw", 0, 7⟩ (Kafka.forgedRecord.headers.getD [])
          output.message.headers) ∧
    ∃ forwarded, (Http.ingestHandler Http.guardedState Http.quietEnv 0
        ⟨.ofWire [("Authorization", Http.bearer), ("DEBLOB-Origin", Http.bearer)], []⟩).forwarded =
          some forwarded ∧
      Http.Tagged Http.guardedState Http.quietEnv .unresolved
        (Http.wireValues [("Authorization", Http.bearer), ("DEBLOB-Origin", Http.bearer)])
        forwarded.headers.getAll := by
  constructor
  · exact ⟨_, rfl, tags_notSpoofable.1 Kafka.singleRecordCfg Kafka.healthyEnv ("raw", 0)
      Kafka.forgedRecord (.new {}) .produced _ rfl⟩
  · exact ⟨_, rfl, (tags_notSpoofable.2 _ _ 0 _ [] _ rfl).1⟩

/-- A header that is neither reserved, hop-by-hop nor the key need not be forwarded. -/
theorem forwarded_without_authorization :
    ∃ forwarded, (Http.ingestHandler Http.guardedState Http.quietEnv 0
        ⟨.ofWire [("Authorization", Http.bearer)], []⟩).forwarded = some forwarded ∧
      Http.isReserved "authorization" = false ∧ Http.isHopByHop "authorization" = false ∧
      Http.wireValues [("Authorization", Http.bearer)] Http.authorization = [Http.bearer] ∧
      forwarded.headers.getAll Http.authorization = [] := by
  refine ⟨_, rfl, ?_⟩
  decide

end Deblob
