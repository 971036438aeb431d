import Deblob.Http.Headers
import Deblob.Kafka.Relay
import Mathlib.Algebra.GroupWithZero.Nat

/-!
# One request to the ingest listener

A request is checked, classified, tagged and forwarded to the configured upstream; an unknown shape
is also handed to the discovery lane. What the matcher and the upstream answer, and the identifiers
generated on the way, are parameters. Timeouts and logging are left out.
-/

namespace Deblob.Http

open Core

structure Url where
  scheme : String
  host : Option String
  /-- The explicit port, or the default one of the scheme. -/
  port : Option ℕ
  path : String

/-- The path is not compared: the list names destinations. -/
def isAllowlisted (route : Url) (allowlist : List Url) : Bool :=
  allowlist.any fun allowed ↦
    allowed.scheme == route.scheme && allowed.host == route.host && allowed.port == route.port

structure ProxyState where
  /-- `HotMatcher::classify` for a source and a body. -/
  classify : String → Bytes → Classification
  /-- Whether a discovery sink is configured. -/
  discovery : Bool
  route : Url
  upstreamAllowlist : List Url
  originPrefix : String
  maxBodyBytes : ℕ
  maxHeaderBytes : ℕ
  maxHeaderCount : ℕ
  ingestToken : Option Bytes

structure HttpProxyCfg where
  listenAddr : String
  upstreamAllowlist : List Url
  route : Url
  maxBodyBytes : ℕ
  maxHeaderBytes : ℕ
  maxHeaderCount : ℕ
  ingestToken : Option Bytes

/-- The state a listener starts with; its source is named after the address it listens on. -/
def HttpProxyCfg.run (cfg : HttpProxyCfg) (classify : String → Bytes → Classification)
    (discovery : Bool) : Option ProxyState :=
  if !isAllowlisted cfg.route cfg.upstreamAllowlist then none
  else some
    { classify, discovery
      route := cfg.route
      upstreamAllowlist := cfg.upstreamAllowlist
      originPrefix := "http/" ++ cfg.listenAddr
      maxBodyBytes := cfg.maxBodyBytes
      maxHeaderBytes := cfg.maxHeaderBytes
      maxHeaderCount := cfg.maxHeaderCount
      ingestToken := cfg.ingestToken }

theorem originPrefix_of_run {cfg : HttpProxyCfg} {classify : String → Bytes → Classification}
    {discovery : Bool} {state : ProxyState} (hrun : cfg.run classify discovery = some state) :
    state.originPrefix = "http/" ++ cfg.listenAddr := by
  unfold HttpProxyCfg.run at hrun
  split_ifs at hrun
  cases hrun
  rfl

structure Request where
  headers : HeaderMap
  body : Bytes

structure Response where
  status : ℕ
  headers : HeaderMap
  body : Bytes

/-- What the upstream does with a forwarded request; a body of `none` could not be read. -/
inductive UpstreamReply where
  | timeout
  | failed
  | response (status : ℕ) (headers : HeaderMap) (body : Option Bytes)

/-- What one request gets from outside the listener. -/
structure RequestEnv where
  originId : Uuid
  idempotencyKey : Uuid
  upstream : UpstreamReply

/-! ## Checks before the body is classified -/

def contentLength : HeaderName := ⟨"content-length", by decide⟩
def transferEncoding : HeaderName := ⟨"transfer-encoding", by decide⟩

/-- A response without headers of its own. -/
def plainResponse (status : ℕ) (message : String) : Response := ⟨status, .empty, utf8 message⟩

def badRequest (message : String) : Response := plainResponse 400 message

def payloadTooLarge : Response := plainResponse 413 "request body exceeds the configured limit"

def headerFieldsTooLarge : Response :=
  plainResponse 431 "request headers exceed the configured limit"

def unauthorized : Response := plainResponse 401 "missing or invalid bearer token"

def checkFraming (headers : HeaderMap) : Except Response Unit :=
  let contentLengthCount := (headers.getAll contentLength).length
  if contentLengthCount > 1 then .error (badRequest "duplicate Content-Length headers")
  else if contentLengthCount ≥ 1 && headers.containsKey transferEncoding then
    .error (badRequest "Content-Length and Transfer-Encoding are both present")
  else .ok ()

def checkHeaderLimits (headers : HeaderMap) (maxHeaderBytes maxHeaderCount : ℕ) :
    Except Response Unit :=
  if headers.fields.length > maxHeaderCount then .error headerFieldsTooLarge
  else if (headers.fields.map fun field ↦
      (utf8 field.1.asStr).length + field.2.bytes.length).sum > maxHeaderBytes then
    .error headerFieldsTooLarge
  else .ok ()

/-- The text of a value, when it holds visible ASCII characters and tabs only. -/
def HeaderValue.toStr (value : HeaderValue) : Option Bytes :=
  if value.bytes.all fun byte ↦ (32 ≤ byte && byte < 127) || byte == 9 then some value.bytes
  else none

/-- `parse::<usize>`: digits, behind at most one plus sign, of a number of 64 bits. -/
def parseUsize (text : Bytes) : Option ℕ :=
  let digits := match text with
    | 43 :: rest => rest
    | text => text
  let number := digits.foldl (fun number digit ↦ 10 * number + (digit.toNat - 48)) 0
  if !digits.isEmpty && digits.all (fun digit ↦ 48 ≤ digit && digit ≤ 57) && number < 2 ^ 64 then
    some number
  else none

def checkContentLength (headers : HeaderMap) (maxBodyBytes : ℕ) : Except Response Unit :=
  match headers.get contentLength with
  | none => .ok ()
  | some value =>
    match parseUsize (value.toStr.getD []) with
    | some parsed => if parsed > maxBodyBytes then .error payloadTooLarge else .ok ()
    | none => .ok ()

def bearerPrefix : Bytes := utf8 "Bearer "

def checkIngestBearer (headers : HeaderMap) (token : Bytes) : Except Response Unit :=
  match (headers.get authorization).bind HeaderValue.toStr with
  | some presented =>
    if presented = bearerPrefix ++ token then .ok () else .error unauthorized
  | none => .error unauthorized

/-- Every check a request passes before its body is classified. -/
def checkRequest (state : ProxyState) (request : Request) : Except Response Unit := do
  checkFraming request.headers
  checkHeaderLimits request.headers state.maxHeaderBytes state.maxHeaderCount
  checkContentLength request.headers state.maxBodyBytes
  match state.ingestToken with
  | some token => checkIngestBearer request.headers token
  | none => .ok ()
  if request.body.length > state.maxBodyBytes then .error payloadTooLarge else .ok ()

/-! ## Forwarding -/

/-- Strip, drop the credential the listener itself asked for, tag, and ensure a key. -/
def forwardHeaders (state : ProxyState) (env : RequestEnv) (headers : HeaderMap)
    (schemaRef : SchemaRef) : HeaderMap :=
  let stripped := stripReservedAndHopByHop headers
  let own := if state.ingestToken.isSome then stripped.remove authorization else stripped
  ensureIdempotencyKey env.idempotencyKey
    (withTag own schemaRef (state.originPrefix ++ "/" ++ env.originId.text))

/-- The evidence of a provisional request, under the next offset of the listener's counter. -/
def enqueueDiscovery (state : ProxyState) (offset : ℕ) (schemaRef : SchemaRef) (body : Bytes) :
    Option Kafka.DiscoveryMsg × ℕ :=
  match schemaRef with
  | .provisional candId =>
    if state.discovery then
      (some ⟨candId.asStr, body, state.originPrefix, ⟨"http", 0, offset⟩⟩, offset + 1)
    else (none, offset)
  | _ => (none, offset)

/-- The answer to the client for what the upstream replied. -/
def upstreamResponse (schemaRef : SchemaRef) : UpstreamReply → Response
  | .timeout => plainResponse 504 "upstream request timed out"
  | .failed => plainResponse 502 "upstream request failed"
  | .response _ _ none => plainResponse 502 "upstream response read failed"
  | .response status headers (some body) =>
    ⟨status, (stripReservedAndHopByHop headers).insert schemaIdHeader (schemaIdValue schemaRef),
      body⟩

/-- The response, the forwarded request, the enqueued evidence and the counter after one request. -/
structure Handled where
  response : Response
  forwarded : Option Request
  enqueued : Option Kafka.DiscoveryMsg
  offset : ℕ

def ingestHandler (state : ProxyState) (env : RequestEnv) (offset : ℕ) (request : Request) :
    Handled :=
  match checkRequest state request with
  | .error response => ⟨response, none, none, offset⟩
  | .ok () =>
    let classification := state.classify state.originPrefix request.body
    if hmalformed : classification.schemaRef = .malformed then
      let reason := classification.quarantine.get (classification.malformed_reason hmalformed)
      ⟨⟨422, withQuarantineReason .empty reason, utf8 "payload quarantined: malformed"⟩, none, none,
        offset⟩
    else if !isAllowlisted state.route state.upstreamAllowlist then
      ⟨plainResponse 502 "upstream not allowlisted", none, none, offset⟩
    else
      let schemaRef := classification.schemaRef
      let enqueued := enqueueDiscovery state offset schemaRef request.body
      ⟨upstreamResponse schemaRef env.upstream,
        some ⟨forwardHeaders state env request.headers schemaRef, request.body⟩, enqueued.1,
        enqueued.2⟩

/-- A request is forwarded once it was admitted, is not malformed, and its upstream is allowed. -/
theorem ingestHandler_of_forwarded {state : ProxyState} {env : RequestEnv} {offset : ℕ}
    {request forwarded : Request}
    (hforwarded : (ingestHandler state env offset request).forwarded = some forwarded) :
    let schemaRef := (state.classify state.originPrefix request.body).schemaRef
    let enqueued := enqueueDiscovery state offset schemaRef request.body
    schemaRef ≠ .malformed ∧
      forwarded = ⟨forwardHeaders state env request.headers schemaRef, request.body⟩ ∧
      ingestHandler state env offset request =
        ⟨upstreamResponse schemaRef env.upstream, some forwarded, enqueued.1, enqueued.2⟩ := by
  intro schemaRef enqueued
  cases hchecked : checkRequest state request with
  | error response =>
      simp only [ingestHandler, hchecked] at hforwarded
      cases hforwarded
  | ok admitted =>
      simp only [ingestHandler, hchecked] at hforwarded ⊢
      split_ifs at hforwarded ⊢ with hmalformed hallowed
      cases hforwarded
      exact ⟨hmalformed, rfl, rfl⟩

/-- The requests that are handed to the discovery lane. -/
def enqueues (state : ProxyState) (request : Request) : Bool :=
  (checkRequest state request).isOk && isAllowlisted state.route state.upstreamAllowlist &&
    state.discovery &&
    match (state.classify state.originPrefix request.body).schemaRef with
    | .provisional _ => true
    | _ => false

/-- A request takes the counter's value with it to the discovery lane, or leaves the counter. -/
theorem ingestHandler_enqueued (state : ProxyState) (env : RequestEnv) (offset : ℕ)
    (request : Request) :
    let handled := ingestHandler state env offset request
    if enqueues state request then
      ∃ candId : CandidateId, handled.enqueued = some ⟨candId.asStr, request.body,
        state.originPrefix, ⟨"http", 0, offset⟩⟩ ∧ handled.offset = offset + 1
    else handled.enqueued = none ∧ handled.offset = offset := by
  intro handled
  cases hchecked : checkRequest state request with
  | error response => simp [handled, ingestHandler, enqueues, hchecked, Except.isOk, Except.toBool]
  | ok checked =>
      cases hschemaRef : (state.classify state.originPrefix request.body).schemaRef <;>
        cases hallowed : isAllowlisted state.route state.upstreamAllowlist <;>
        cases hdiscovery : state.discovery <;>
        simp [handled, ingestHandler, enqueues, enqueueDiscovery, hchecked, hschemaRef, hallowed,
          hdiscovery, Except.isOk, Except.toBool]

theorem ingestHandler_enqueued_eq_some {state : ProxyState} {env : RequestEnv} {offset : ℕ}
    {request : Request} {msg : Kafka.DiscoveryMsg}
    (hmsg : (ingestHandler state env offset request).enqueued = some msg) :
    enqueues state request = true ∧ msg.source = state.originPrefix ∧
      msg.cursor = ⟨"http", 0, offset⟩ ∧
      (ingestHandler state env offset request).offset = offset + 1 := by
  have henqueued := ingestHandler_enqueued state env offset request
  split_ifs at henqueued with henqueues
  · obtain ⟨candId, hsome, hoffset⟩ := henqueued
    cases hmsg.symm.trans hsome
    exact ⟨henqueues, rfl, rfl, hoffset⟩
  · cases hmsg.symm.trans henqueued.1

/-- The counter never goes back. -/
theorem le_ingestHandler_offset (state : ProxyState) (env : RequestEnv) (offset : ℕ)
    (request : Request) : offset ≤ (ingestHandler state env offset request).offset := by
  have henqueued := ingestHandler_enqueued state env offset request
  split_ifs at henqueued
  · obtain ⟨candId, -, hoffset⟩ := henqueued
    exact (Nat.le_succ _).trans_eq hoffset.symm
  · exact henqueued.2.ge

end Deblob.Http
