import Nshmqtt.Config
import Nshmqtt.State

/-!
# Counters and Prometheus output

`metrics.cpp`: the request counters, the mapping of topic names to Prometheus
names with its collision rule, and the rendered texts.  The state half of the
output depends on the values only through their formatted text.
-/

namespace Nshmqtt

open ByteStrings DecimalText

/-- The process-wide counters. -/
structure Metrics where
  eventRequestsTotal : UInt64 := 0
  metricRequestsTotal : UInt64 := 0
  healthRequestsTotal : UInt64 := 0
  metricsRequestsTotal : UInt64 := 0
  otherRequestsTotal : UInt64 := 0
  responses2xx : UInt64 := 0
  responses4xx : UInt64 := 0
  responses5xx : UInt64 := 0
  mqttPublishOkTotal : UInt64 := 0
  mqttPublishFailedTotal : UInt64 := 0
  mqttPublishTimeoutTotal : UInt64 := 0
  mqttQueueFullTotal : UInt64 := 0
  mqttReconnectsTotal : UInt64 := 0
  mqttMessagesReceivedTotal : UInt64 := 0
  mqttMessagesDroppedTotal : UInt64 := 0
  webhookDeliveredTotal : UInt64 := 0
  webhookFailedTotal : UInt64 := 0
  webhookQueueFullTotal : UInt64 := 0

/-- `path.rfind(start, 0) == 0`. -/
def startsWith (path start : Bytes) : Bool := start.isPrefixOf path

def Metrics.recordRequest (metrics : Metrics) (path : Bytes) : Metrics :=
  if startsWith path (ascii "/event/") then
    { metrics with eventRequestsTotal := metrics.eventRequestsTotal + 1 }
  else if startsWith path (ascii "/metric/") then
    { metrics with metricRequestsTotal := metrics.metricRequestsTotal + 1 }
  else if path = ascii "/health" then
    { metrics with healthRequestsTotal := metrics.healthRequestsTotal + 1 }
  else if path = ascii "/metrics" ∨ path = ascii "/metrics-state" then
    { metrics with metricsRequestsTotal := metrics.metricsRequestsTotal + 1 }
  else
    { metrics with otherRequestsTotal := metrics.otherRequestsTotal + 1 }

def Metrics.recordResponse (metrics : Metrics) (status : Nat) : Metrics :=
  if 200 ≤ status ∧ status < 300 then
    { metrics with responses2xx := metrics.responses2xx + 1 }
  else if 400 ≤ status ∧ status < 500 then
    { metrics with responses4xx := metrics.responses4xx + 1 }
  else if 500 ≤ status ∧ status < 600 then
    { metrics with responses5xx := metrics.responses5xx + 1 }
  else metrics

/-- The bytes that a Prometheus name may hold. -/
def isNameByte (c : UInt8) : Bool :=
  (97 ≤ c && c ≤ 122) || (65 ≤ c && c ≤ 90) || (48 ≤ c && c ≤ 57) || c == 95

def normalizeMetricName (pre topicName topicPrefix : Bytes) : Bytes :=
  let body := (topicPrefix ++ topicName).map fun c => if isNameByte c then c else 95
  match body with
  | c :: _ => if 48 ≤ c && c ≤ 57 then pre ++ 95 :: body else pre ++ body
  | [] => pre ++ body

/-- The series that survive, and the names left out because an earlier name
already claimed theirs. -/
structure NormalizedMetrics where
  metrics : List (Bytes × Double)
  collisions : List Bytes

/-- The loop of `normalizeAll`; `claimed` has the Prometheus names taken so far. -/
def normalizeFrom (pre topicPrefix : Bytes) (claimed : List Bytes) :
    List (Bytes × Double) → NormalizedMetrics
  | [] => ⟨[], []⟩
  | item :: items =>
      let promName := normalizeMetricName pre item.1 topicPrefix
      if promName ∈ claimed then
        let rest := normalizeFrom pre topicPrefix claimed items
        { rest with collisions := item.1 :: rest.collisions }
      else
        let rest := normalizeFrom pre topicPrefix (promName :: claimed) items
        { rest with metrics := (promName, item.2) :: rest.metrics }

def normalizeAll (pre : Bytes) (items : List (Bytes × Double)) (topicPrefix : Bytes) :
    NormalizedMetrics :=
  normalizeFrom pre topicPrefix [] items

/-- One line of output. -/
def textLine (parts : List Bytes) : Bytes := parts.flatten ++ [10]

def writeCounter (name help labels : Bytes) (value : UInt64) : Bytes :=
  textLine [ascii "# HELP ", name, ascii " ", help] ++
    textLine [ascii "# TYPE ", name, ascii " counter"] ++
    textLine [name, if labels = [] then [] else [openBrace] ++ labels ++ [closeBrace],
      ascii " ", decimalText value.toNat]

def writeGauge (name help : Bytes) (value : Double) : Bytes :=
  textLine [ascii "# HELP ", name, ascii " ", help] ++
    textLine [ascii "# TYPE ", name, ascii " gauge"] ++
    textLine [name, ascii " ", formatDouble value]

/-- A counter that is split by the values of one label. -/
def writeLabelled (name help label : Bytes) (series : List (Bytes × UInt64)) : Bytes :=
  textLine [ascii "# HELP ", name, ascii " ", help] ++
    textLine [ascii "# TYPE ", name, ascii " counter"] ++
    (series.map fun entry => textLine [name, [openBrace], label, ascii "=\"", entry.1,
      ascii "\"\x7d ", decimalText entry.2.toNat]).flatten

def boolDouble (b : Bool) : Double := Binary64.ofInt (if b then 1 else 0)

/-- What the service outputs read besides the counters. -/
structure ServiceStatus where
  uptimeSeconds : Double
  mqttConnected : Bool
  mqttConnectionsActive : Int
  mqttQueueDepth : Int
  webhookQueueDepth : Int

def renderPrometheusServiceMetrics (pre : Bytes) (metrics : Metrics) (status : ServiceStatus)
    (mqttPoolSize : Int) (stateEntries metricNameCollisions : Nat) : Bytes :=
  textLine [ascii "# HELP ", pre,
      ascii "up 1 if this nshmqtt process is running (always 1 if you can scrape it)"] ++
    textLine [ascii "# TYPE ", pre, ascii "up gauge"] ++
    textLine [pre, ascii "up 1"] ++
    writeGauge (pre ++ ascii "uptime_seconds") (ascii "Seconds since nshmqtt started")
      status.uptimeSeconds ++
    writeGauge (pre ++ ascii "mqtt_connected")
      (ascii "1 if at least one pool connection is currently connected, 0 otherwise")
      (boolDouble status.mqttConnected) ++
    writeGauge (pre ++ ascii "mqtt_connections_active")
      (ascii "Number of MQTT pool connections currently connected")
      (Binary64.ofInt status.mqttConnectionsActive) ++
    writeGauge (pre ++ ascii "mqtt_pool_size")
      (ascii "Configured MQTT connection pool size (mqtt_pool_size)")
      (Binary64.ofInt mqttPoolSize) ++
    writeGauge (pre ++ ascii "mqtt_publish_queue_depth")
      (ascii "Publish jobs currently queued, shared across the connection pool")
      (Binary64.ofInt status.mqttQueueDepth) ++
    writeGauge (pre ++ ascii "state_entries") (ascii "Current number of stored metric values")
      (Binary64.ofInt stateEntries) ++
    writeGauge (pre ++ ascii "metric_name_collisions")
      (ascii "Distinct topic names in the current state that normalize to an already-used " ++
        ascii "Prometheus metric name and are dropped from the state metrics endpoint")
      (Binary64.ofInt metricNameCollisions) ++
    writeLabelled (pre ++ ascii "http_requests_total")
      (ascii "HTTP requests received, by category") (ascii "category")
      [(ascii "event", metrics.eventRequestsTotal), (ascii "metric", metrics.metricRequestsTotal),
        (ascii "health", metrics.healthRequestsTotal),
        (ascii "metrics", metrics.metricsRequestsTotal),
        (ascii "other", metrics.otherRequestsTotal)] ++
    writeLabelled (pre ++ ascii "http_responses_total")
      (ascii "HTTP responses sent, by status class") (ascii "class")
      [(ascii "2xx", metrics.responses2xx), (ascii "4xx", metrics.responses4xx),
        (ascii "5xx", metrics.responses5xx)] ++
    writeLabelled (pre ++ ascii "mqtt_publish_total")
      (ascii "MQTT publish attempts, by outcome") (ascii "outcome")
      [(ascii "ok", metrics.mqttPublishOkTotal), (ascii "failed", metrics.mqttPublishFailedTotal),
        (ascii "timeout", metrics.mqttPublishTimeoutTotal)] ++
    writeCounter (pre ++ ascii "mqtt_queue_full_total")
      (ascii "Publish requests rejected because the MQTT worker queue was full") []
      metrics.mqttQueueFullTotal ++
    writeCounter (pre ++ ascii "mqtt_reconnects_total")
      (ascii "MQTT reconnect attempts since startup") [] metrics.mqttReconnectsTotal ++
    writeCounter (pre ++ ascii "mqtt_messages_received_total")
      (ascii "MQTT messages received via subscription") [] metrics.mqttMessagesReceivedTotal ++
    writeCounter (pre ++ ascii "mqtt_messages_dropped_total")
      (ascii "MQTT messages dropped because the subscribe processing queue was full") []
      metrics.mqttMessagesDroppedTotal ++
    writeGauge (pre ++ ascii "webhook_queue_depth")
      (ascii "Webhook delivery jobs currently queued")
      (Binary64.ofInt status.webhookQueueDepth) ++
    writeCounter (pre ++ ascii "webhook_delivered_total")
      (ascii "Webhook POSTs that completed with a 2xx response") []
      metrics.webhookDeliveredTotal ++
    writeCounter (pre ++ ascii "webhook_failed_total")
      (ascii "Webhook POSTs that failed (connection error, timeout, or non-2xx response)") []
      metrics.webhookFailedTotal ++
    writeCounter (pre ++ ascii "webhook_queue_full_total")
      (ascii "Messages dropped because the webhook delivery queue was full") []
      metrics.webhookQueueFullTotal

def renderPrometheusStateMetrics (normalizedMetrics : List (Bytes × Double)) : Bytes :=
  textLine [ascii "# Current value of each stored metric below (untyped; one series per name)"] ++
    (normalizedMetrics.map fun m => textLine [m.1, ascii " ", formatDouble m.2]).flatten

/-- The body of `GET /metrics-state`. -/
def metricsStateBody (cfg : Config) (store : StateStore) : Bytes :=
  renderPrometheusStateMetrics
    (normalizeAll cfg.prometheusMqttStatePrefix store.snapshot cfg.stateTopicPrefix).metrics

def boolText (b : Bool) : Bytes := if b then ascii "true" else ascii "false"

def renderHealthJson (version : Bytes) (status : ServiceStatus) (mqttPoolSize : Int)
    (stateEntries : Nat) : Bytes :=
  ascii "\x7b\"status\":\"ok\"" ++
    ascii ",\"version\":\"" ++ jsonEscape version ++ ascii "\"" ++
    ascii ",\"uptime_seconds\":" ++ formatDouble status.uptimeSeconds ++
    ascii ",\"mqtt_connected\":" ++ boolText status.mqttConnected ++
    ascii ",\"mqtt_connections_active\":" ++ integerText status.mqttConnectionsActive ++
    ascii ",\"mqtt_pool_size\":" ++ integerText mqttPoolSize ++
    ascii ",\"state_entries\":" ++ decimalText stateEntries ++ ascii "\x7d"

/-- The names and the formatted values of the surviving series depend only on
the names and the formatted values of the items. -/
theorem normalizeFrom_congr (pre topicPrefix : Bytes) (claimed : List Bytes)
    {items items' : List (Bytes × Double)}
    (h : items.map (fun item => (item.1, formatDouble item.2)) =
      items'.map fun item => (item.1, formatDouble item.2)) :
    (normalizeFrom pre topicPrefix claimed items).metrics.map
        (fun m => (m.1, formatDouble m.2)) =
      (normalizeFrom pre topicPrefix claimed items').metrics.map
        fun m => (m.1, formatDouble m.2) := by
  induction items generalizing items' claimed with
  | nil =>
      cases items' with
      | nil => rfl
      | cons item' rest' => simp at h
  | cons item rest ih =>
      cases items' with
      | nil => simp at h
      | cons item' rest' =>
          simp only [List.map_cons, List.cons.injEq, Prod.mk.injEq] at h
          obtain ⟨⟨hname, hvalue⟩, hrest⟩ := h
          simp only [normalizeFrom, hname]
          split_ifs with hclaimed
          · exact ih claimed hrest
          · simp only [List.map_cons, hvalue]
            exact congrArg _ (ih _ hrest)

/-- **The state output is a function of the formatted values.** -/
theorem renderPrometheusStateMetrics_congr {items items' : List (Bytes × Double)}
    (h : items.map (fun item => (item.1, formatDouble item.2)) =
      items'.map fun item => (item.1, formatDouble item.2)) :
    renderPrometheusStateMetrics items = renderPrometheusStateMetrics items' := by
  have hlines : ∀ l : List (Bytes × Double),
      l.map (fun m => textLine [m.1, ascii " ", formatDouble m.2]) =
        (l.map fun m => (m.1, formatDouble m.2)).map fun m => textLine [m.1, ascii " ", m.2] := by
    intro l
    simp
  unfold renderPrometheusStateMetrics
  rw [hlines, hlines, h]

end Nshmqtt
