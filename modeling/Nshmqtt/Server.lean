import Nshmqtt.EventPlaceholders
import Nshmqtt.Http
import Nshmqtt.Metrics

/-!
# The HTTP server

`server.cpp`: the handlers of events and metrics, the route table with its
authorization check, and one connection from the first byte to the response.
A handler maps the server's state to a response and a new state; what the
broker, the disk and the clock do meanwhile is in `Surroundings`.
-/

namespace Nshmqtt

open ByteStrings DecimalText

inductive PublishOutcome
  | ok
  | queueFull
  | timeout
  | failed
  deriving DecidableEq

/-- One call of `MqttClient::publish`. -/
structure PublishCall where
  topic : Bytes
  payload : Bytes
  qos : Int
  retain : Bool
  deriving DecidableEq

/-- What a handler changes. -/
structure ServerState where
  store : StateStore
  files : StateStore.StateFiles
  publishCalls : List PublishCall
  metrics : Metrics

/-- What a handler meets outside of the server. -/
structure Surroundings where
  status : ServiceStatus
  publishOutcome : PublishCall → PublishOutcome
  saveIo : StateStore.SaveIo
  placeholders : Bytes → Nat → Bytes

def version : Bytes := ascii "0.2.0"

def contentTypeIsJson (contentType : Bytes) : Bool :=
  contains (toLower contentType) (ascii "application/json")

def isAuthorized (cfg : Config) (req : HttpRequest) : Bool :=
  cfg.httpAuthTokens.isEmpty ||
    cfg.httpAuthTokens.any fun token => constantTimeEquals req.authToken token

def jsonError (status : Nat) (message : String) : HttpResponse :=
  makeErrorResponse status (ascii message) .json

/-- The refusal of a method, with the methods that are allowed. -/
def methodNotAllowed (allow : String) : HttpResponse :=
  { jsonError 405 "method not allowed" with headers := [(ascii "Allow", ascii allow)] }

def ServerState.publish (s : ServerState) (call : PublishCall) : ServerState :=
  { s with publishCalls := s.publishCalls ++ [call] }

def eventOutcomeResponse (call : PublishCall) : PublishOutcome → HttpResponse
  | .ok =>
      { status := 200
        body := ascii "\x7b\"topic\":\"" ++ jsonEscape call.topic ++
          ascii "\",\"payload_bytes\":" ++ decimalText call.payload.length ++
          ascii ",\"qos\":" ++ integerText call.qos ++
          ascii ",\"retain\":" ++ boolText call.retain ++ ascii ",\"published\":true\x7d" }
  | .queueFull => { status := 503, body := ascii "\x7b\"error\":\"mqtt publish queue full\"\x7d" }
  | .timeout => { status := 504, body := ascii "\x7b\"error\":\"mqtt publish timed out\"\x7d" }
  | .failed => { status := 502, body := ascii "\x7b\"error\":\"mqtt publish failed\"\x7d" }

/-- The part of the path after `start`; empty when the path does not go on
after it. -/
def pathAfter (start path : Bytes) : Bytes :=
  if path.length ≤ start.length ∨ !startsWith path start then [] else path.drop start.length

/-- The payload of an event, before placeholders are filled in. -/
def eventPayload (cfg : Config) (req : HttpRequest) : Except HttpResponse Bytes :=
  if req.method = ascii "POST" then .ok req.body
  else if req.method = ascii "GET" ∧ cfg.simpleGet then
    match findQueryParam req (ascii "value") with
    | none => .error (jsonError 400 "missing value parameter")
    | some value => .ok value
  else .error (methodNotAllowed (if cfg.simpleGet then "POST, GET" else "POST"))

/-- A header's value, or the query parameter when the header is empty. -/
def headerOrParam (req : HttpRequest) (header key : Bytes) : Option Bytes :=
  if header ≠ [] then some header else findQueryParam req key

def eventQos (cfg : Config) (req : HttpRequest) : Except HttpResponse Int :=
  match headerOrParam req req.qosHeader (ascii "qos") with
  | none => .ok cfg.mqttQos
  | some value =>
      match parseInt value with
      | none => .error (jsonError 400 "invalid qos (expected 0, 1, or 2)")
      | some parsed =>
          if parsed < 0 ∨ parsed > 2 then
            .error (jsonError 400 "invalid qos (expected 0, 1, or 2)")
          else .ok parsed

def eventRetain (req : HttpRequest) : Except HttpResponse Bool :=
  match headerOrParam req req.retainHeader (ascii "retain") with
  | none => .ok false
  | some value =>
      match parseBool value with
      | none =>
          .error (jsonError 400 "invalid retain (expected true/false, 1/0, yes/no, or on/off)")
      | some retain => .ok retain

/-- Placeholders are filled in where that is switched on. -/
def fillPlaceholders (cfg : Config) (env : Surroundings) (payload : Bytes) : Bytes :=
  if cfg.eventPlaceholdersEnabled then substituteEventPlaceholders env.placeholders payload
  else payload

/-- The publish call an event asks for, or the response that refuses it. -/
def eventCall (cfg : Config) (env : Surroundings) (req : HttpRequest) :
    Except HttpResponse PublishCall := do
  let topic := pathAfter (ascii "/event/") req.path
  if topic = [] then throw (jsonError 400 "missing topic")
  let payload ← eventPayload cfg req
  let qos ← eventQos cfg req
  let retain ← eventRetain req
  return ⟨topic, fillPlaceholders cfg env payload, qos, retain⟩

def handleEvent (cfg : Config) (env : Surroundings) (s : ServerState) (req : HttpRequest) :
    HttpResponse × ServerState :=
  match eventCall cfg env req with
  | .error resp => (resp, s)
  | .ok call => (eventOutcomeResponse call (env.publishOutcome call), s.publish call)

/-- Persist the store where persistence is on; a failure is only logged. -/
def saveState (cfg : Config) (env : Surroundings) (s : ServerState) : ServerState :=
  if cfg.stateEnabled then
    { s with files := (s.store.save cfg.stateFile s.files env.saveIo).2 }
  else s

/-- The retained publish that mirrors a written value. -/
def metricWriteCall (cfg : Config) (name : Bytes) (value : Double) : PublishCall :=
  ⟨name, formatDouble value, cfg.mqttQos, true⟩

/-- The empty retained publish that clears the mirrored value. -/
def metricDeleteCall (cfg : Config) (name : Bytes) : PublishCall := ⟨name, [], cfg.mqttQos, true⟩

def handleMetricWrite (cfg : Config) (env : Surroundings) (s : ServerState) (name : Bytes)
    (value : Double) : HttpResponse × ServerState :=
  let stored := saveState cfg env { s with store := s.store.set name value }
  let call := metricWriteCall cfg name value
  let published := decide (env.publishOutcome call = .ok)
  ({ status := 200
     body := ascii "\x7b\"name\":\"" ++ jsonEscape name ++ ascii "\",\"value\":" ++
       formatDouble value ++ ascii ",\"mqtt_published\":" ++ boolText published ++
       ascii "\x7d" },
    stored.publish call)

def handleMetricDelete (cfg : Config) (env : Surroundings) (s : ServerState) (name : Bytes) :
    HttpResponse × ServerState :=
  let (store, existed) := s.store.remove name
  if !existed then (jsonError 404 "not found", s)
  else
    let stored := saveState cfg env { s with store := store }
    let call := metricDeleteCall cfg name
    let cleared := decide (env.publishOutcome call = .ok)
    ({ status := 200
       body := ascii "\x7b\"name\":\"" ++ jsonEscape name ++
         ascii "\",\"deleted\":true,\"mqtt_cleared\":" ++ boolText cleared ++ ascii "\x7d" },
      stored.publish call)

/-- The value in the body of a PUT. -/
def putValue (req : HttpRequest) : Option Double :=
  if contentTypeIsJson req.contentType then extractJsonNumberField req.body (ascii "value")
  else parseDouble req.body

def handleMetric (cfg : Config) (env : Surroundings) (s : ServerState) (req : HttpRequest) :
    HttpResponse × ServerState :=
  let name := pathAfter (ascii "/metric/") req.path
  if name = [] then (jsonError 400 "missing metric name", s)
  else if req.method = ascii "DELETE" then handleMetricDelete cfg env s name
  else if req.method = ascii "PUT" then
    match putValue req with
    | none => (jsonError 400 "invalid metric value", s)
    | some value => handleMetricWrite cfg env s name value
  else if req.method = ascii "GET" ∧ cfg.simpleGet then
    match findQueryParam req (ascii "value") with
    | none => (jsonError 400 "missing value parameter", s)
    | some valueText =>
        match parseDouble valueText with
        | none => (jsonError 400 "invalid metric value", s)
        | some value => handleMetricWrite cfg env s name value
  else (methodNotAllowed (if cfg.simpleGet then "PUT, DELETE, GET" else "PUT, DELETE"), s)

/-- The normalized names of the store's entries. -/
def normalizedState (cfg : Config) (store : StateStore) : NormalizedMetrics :=
  normalizeAll cfg.prometheusMqttStatePrefix store.snapshot cfg.stateTopicPrefix

/-- The body of `GET /metrics`. -/
def serviceBody (cfg : Config) (env : Surroundings) (s : ServerState) : Bytes :=
  renderPrometheusServiceMetrics cfg.prometheusPrefix s.metrics env.status cfg.mqttPoolSize
    s.store.size (normalizedState cfg s.store).collisions.length

def healthResponse (cfg : Config) (env : Surroundings) (s : ServerState) (req : HttpRequest) :
    HttpResponse :=
  if acceptWantsJson req.accept then
    { format := .json
      body := renderHealthJson version env.status cfg.mqttPoolSize s.store.size }
  else
    { format := .text
      body := ascii "status=ok\nmqtt_connected=" ++ boolText env.status.mqttConnected ++
        ascii "\nmqtt_connections_active=" ++ integerText env.status.mqttConnectionsActive ++
        ascii "/" ++ integerText cfg.mqttPoolSize ++ [10] }

def isEventPath (path : Bytes) : Bool :=
  path == ascii "/event" || startsWith path (ascii "/event/")

def isMetricPath (path : Bytes) : Bool :=
  path == ascii "/metric" || startsWith path (ascii "/metric/")

/-- The routes that carry callers' data. -/
def needsAuth (path : Bytes) : Bool :=
  isEventPath path || isMetricPath path || path == ascii "/metrics-state"

/-- `GET` or `HEAD`. -/
def isRead (req : HttpRequest) : Bool := req.method == ascii "GET" || req.method == ascii "HEAD"

def route (cfg : Config) (env : Surroundings) (s : ServerState) (req : HttpRequest) :
    HttpResponse × ServerState :=
  let path := req.path
  if needsAuth path && !isAuthorized cfg req then (jsonError 401 "unauthorized", s)
  else if isEventPath path then handleEvent cfg env s req
  else if isMetricPath path then handleMetric cfg env s req
  else if path = ascii "/metrics" ∨ path = ascii "/metrics-state" then
    if !isRead req then (methodNotAllowed "GET, HEAD", s)
    else if !cfg.prometheusHttp then (jsonError 404 "not found", s)
    else
      ({ format := .prometheus
         body := if path = ascii "/metrics" then serviceBody cfg env s
           else metricsStateBody cfg s.store }, s)
  else if path = ascii "/health" then
    if !isRead req then (methodNotAllowed "GET, HEAD", s)
    else (healthResponse cfg env s req, s)
  else (jsonError 404 "not found", s)

/-- What a connection comes to before routing. -/
inductive Received
  /-- Closed without an answer; a request that was parsed is counted. -/
  | dropped (counted : Option Bytes)
  | rejected (counted : Bytes) (resp : HttpResponse) (isHead : Bool)
  | request (req : HttpRequest)
  deriving DecidableEq

/-- Read the body that the head announced, of which `leftoverBody` already came
with the head. -/
def receiveBody (req : HttpRequest) (leftoverBody : Bytes) (socket : List Recv) : Received :=
  let need := req.contentLength.toNat
  let body := leftoverBody.take need
  if body.length < need then
    match readHttpBody (need - body.length) body socket with
    | (.ok, body, _) => .request { req with body := body }
    | _ => .dropped (some req.path)
  else .request { req with body := body }

/-- The checks on a request whose head is parsed, and its body. -/
def receiveParsed (cfg : Config) (req : HttpRequest) (leftoverBody : Bytes)
    (socket : List Recv) : Received :=
  let isHead := decide (req.method = ascii "HEAD")
  if req.chunked then
    .rejected req.path (jsonError 411 "chunked request bodies are not supported") isHead
  else if 0 < req.contentLength ∧ cfg.maxBodyBytes < req.contentLength.toNat then
    .rejected req.path (jsonError 413 "request body too large") isHead
  else if 0 < req.contentLength then receiveBody req leftoverBody socket
  else .request req

/-- The part of `handleConnection` before the request is routed. -/
def receive (cfg : Config) (socket : List Recv) : Received :=
  match readHttpHead cfg.maxRequestBytes socket with
  | (.tooLarge, _, _) => .rejected [] (jsonError 400 "request headers too large") false
  | (.ok, raw, rest) =>
      match parseHttpRequest raw {} with
      | none => .rejected [] (jsonError 400 "malformed HTTP request") false
      | some (req, leftoverBody) => receiveParsed cfg req leftoverBody rest
  | _ => .dropped none

def ServerState.recordRequest (s : ServerState) (path : Bytes) : ServerState :=
  { s with metrics := s.metrics.recordRequest path }

def ServerState.recordResponse (s : ServerState) (status : Nat) : ServerState :=
  { s with metrics := s.metrics.recordResponse status }

/-- One connection: the bytes that are answered, if any, and the new state. -/
def handleConnection (cfg : Config) (env : Surroundings) (s : ServerState)
    (socket : List Recv) : Option Bytes × ServerState :=
  match receive cfg socket with
  | .dropped none => (none, s)
  | .dropped (some path) => (none, s.recordRequest path)
  | .rejected path resp isHead =>
      (some (buildHttpResponse resp (!isHead)),
        (s.recordRequest path).recordResponse resp.status)
  | .request req =>
      let (resp, s) := route cfg env (s.recordRequest req.path) req
      (some (buildHttpResponse resp (req.method != ascii "HEAD")), s.recordResponse resp.status)

end Nshmqtt
