import Nshmqtt.Config

/-!
# Setting a key

`apply_key` of `config.cpp`: the keys of a configuration, in the order in which the source
compares them, with the branch of each.  A branch reads the value text with one of few
parsers, checks its range, and overwrites one field.
-/

namespace Nshmqtt

open ByteStrings DecimalText

def trim (s : Bytes) : Bytes := trimBoth isspace s

/-- `strtol` that has to read the whole C string; unlike `parseInt`, nothing is trimmed. -/
def parseLong (base : Nat) (value : Bytes) : Option Int :=
  if value = [] then none else accepted (strtol base (cString value))

/-- The entries between the commas, trimmed, without the empty ones. -/
def splitCsv (value : Bytes) : List Bytes :=
  ((value.splitOn comma).map trim).filter (· ≠ [])

/-- The port is written only when the text is accepted. -/
def parsePort (text : Bytes) (out : Int) : Bool × Int :=
  match parseLong 10 text with
  | none => (false, out)
  | some v => if v < 1 ∨ v > 65535 then (false, out) else (true, castInt v)

inductive ConfigKey where
  | socket | socketMode | threads | maxRequestBytes | maxBodyBytes | debugLog | tcpPort
  | tcpAddress | simpleGet | eventPlaceholdersEnabled | httpAuthTokens | mqttHost | mqttPort
  | mqttClientId | mqttQos | mqttPoolSize | mqttKeepaliveSeconds | mqttConnectTimeoutSeconds
  | mqttPublishTimeoutSeconds | mqttQueueSize | mqttUsername | mqttPassword | subscribeEnabled
  | subscribeTopics | webhookEnabled | webhookUrl | webhookTopics | webhookAuthHeader
  | webhookAuthValue | webhookTlsInsecure | webhookTimeoutSeconds | webhookQueueSize | stateEnabled
  | stateFile | prometheusHttp | prometheusTextfile | prometheusTextfileIntervalSeconds
  | prometheusPrefix | prometheusMqttStatePrefix | stateTopicPrefix | prometheusMqttJsonTopics
  deriving DecidableEq

namespace ConfigKey

/-- The keys, in the order of the source. -/
def all : List ConfigKey :=
  [.socket, .socketMode, .threads, .maxRequestBytes, .maxBodyBytes, .debugLog, .tcpPort,
   .tcpAddress, .simpleGet, .eventPlaceholdersEnabled, .httpAuthTokens, .mqttHost, .mqttPort,
   .mqttClientId, .mqttQos, .mqttPoolSize, .mqttKeepaliveSeconds, .mqttConnectTimeoutSeconds,
   .mqttPublishTimeoutSeconds, .mqttQueueSize, .mqttUsername, .mqttPassword, .subscribeEnabled,
   .subscribeTopics, .webhookEnabled, .webhookUrl, .webhookTopics, .webhookAuthHeader,
   .webhookAuthValue, .webhookTlsInsecure, .webhookTimeoutSeconds, .webhookQueueSize,
   .stateEnabled, .stateFile, .prometheusHttp, .prometheusTextfile,
   .prometheusTextfileIntervalSeconds, .prometheusPrefix, .prometheusMqttStatePrefix,
   .stateTopicPrefix, .prometheusMqttJsonTopics]

/-- How a key is written. -/
def name : ConfigKey → Bytes
  | .socket => ascii "socket"
  | .socketMode => ascii "socket_mode"
  | .threads => ascii "threads"
  | .maxRequestBytes => ascii "max_request_bytes"
  | .maxBodyBytes => ascii "max_body_bytes"
  | .debugLog => ascii "debug_log"
  | .tcpPort => ascii "tcp_port"
  | .tcpAddress => ascii "tcp_address"
  | .simpleGet => ascii "simple_get"
  | .eventPlaceholdersEnabled => ascii "event_placeholders_enabled"
  | .httpAuthTokens => ascii "http_auth_tokens"
  | .mqttHost => ascii "mqtt_host"
  | .mqttPort => ascii "mqtt_port"
  | .mqttClientId => ascii "mqtt_client_id"
  | .mqttQos => ascii "mqtt_qos"
  | .mqttPoolSize => ascii "mqtt_pool_size"
  | .mqttKeepaliveSeconds => ascii "mqtt_keepalive_seconds"
  | .mqttConnectTimeoutSeconds => ascii "mqtt_connect_timeout_seconds"
  | .mqttPublishTimeoutSeconds => ascii "mqtt_publish_timeout_seconds"
  | .mqttQueueSize => ascii "mqtt_queue_size"
  | .mqttUsername => ascii "mqtt_username"
  | .mqttPassword => ascii "mqtt_password"
  | .subscribeEnabled => ascii "subscribe_enabled"
  | .subscribeTopics => ascii "subscribe_topics"
  | .webhookEnabled => ascii "webhook_enabled"
  | .webhookUrl => ascii "webhook_url"
  | .webhookTopics => ascii "webhook_topics"
  | .webhookAuthHeader => ascii "webhook_auth_header"
  | .webhookAuthValue => ascii "webhook_auth_value"
  | .webhookTlsInsecure => ascii "webhook_tls_insecure"
  | .webhookTimeoutSeconds => ascii "webhook_timeout_seconds"
  | .webhookQueueSize => ascii "webhook_queue_size"
  | .stateEnabled => ascii "state_enabled"
  | .stateFile => ascii "state_file"
  | .prometheusHttp => ascii "prometheus_http"
  | .prometheusTextfile => ascii "prometheus_textfile"
  | .prometheusTextfileIntervalSeconds => ascii "prometheus_textfile_interval_seconds"
  | .prometheusPrefix => ascii "prometheus_prefix"
  | .prometheusMqttStatePrefix => ascii "prometheus_mqtt_state_prefix"
  | .stateTopicPrefix => ascii "state_topic_prefix"
  | .prometheusMqttJsonTopics => ascii "prometheus_mqtt_json_topics"

end ConfigKey

/-- The key with the given name; the comparisons are made in order. -/
def findKey (key : Bytes) : Option ConfigKey := ConfigKey.all.find? fun k => k.name == key

/-- What a call leaves: whether it succeeded, the settings, and the error text, which both
callers pass in empty. -/
structure Applied where
  ok : Bool
  cfg : Config
  err : Bytes

def accept (cfg : Config) : Applied := ⟨true, cfg, []⟩

def reject (cfg : Config) (message : String) : Applied := ⟨false, cfg, ascii message⟩

/-- A branch that reads a number in a range. -/
def applyLong (cfg : Config) (value : Bytes) (base : Nat) (low high : Int) (message : String)
    (write : Int → Config) : Applied :=
  match parseLong base value with
  | none => reject cfg message
  | some v => if v < low ∨ v > high then reject cfg message else accept (write v)

/-- A branch that reads true or false. -/
def applyBool (cfg : Config) (value : Bytes) (message : String) (write : Bool → Config) :
    Applied :=
  match parseBool value with
  | none => reject cfg message
  | some enabled => accept (write enabled)

/-- `static_cast<mode_t>`. -/
def castMode (n : Int) : Nat := (n % 2 ^ 32).toNat

/-- `static_cast<std::size_t>`. -/
def castSize (n : Int) : Nat := (n % 2 ^ 64).toNat

/-- The branch of a key. -/
def applyKnown (cfg : Config) (value : Bytes) : ConfigKey → Applied
  | .socket => accept { cfg with socketPath := value }
  | .socketMode =>
      applyLong cfg value 8 0 0o7777 "invalid socket_mode (expected octal, e.g. 0660)" fun mode =>
        { cfg with socketMode := castMode mode }
  | .threads =>
      applyLong cfg value 10 1 256 "invalid threads (expected 1-256)" fun threads =>
        { cfg with threads := castInt threads }
  | .maxRequestBytes =>
      applyLong cfg value 10 256 (1 <<< 20) "invalid max_request_bytes (expected 256-1048576)"
        fun bytes => { cfg with maxRequestBytes := castSize bytes }
  | .maxBodyBytes =>
      applyLong cfg value 10 1 (16 <<< 20) "invalid max_body_bytes (expected 1-16777216)"
        fun bytes => { cfg with maxBodyBytes := castSize bytes }
  | .debugLog =>
      applyBool cfg value "invalid debug_log (expected true/false)" fun debug =>
        { cfg with debugLog := debug }
  | .tcpPort =>
      if value ≠ [] ∧ value ≠ ascii "0" then
        let parsed := parsePort value 0
        if parsed.1 then accept { cfg with tcpPort := parsed.2 }
        else reject cfg "invalid tcp_port (expected 1-65535, or 0 to disable)"
      else accept { cfg with tcpPort := 0 }
  | .tcpAddress => accept { cfg with tcpAddress := value }
  | .simpleGet =>
      applyBool cfg value "invalid simple_get (expected true/false)" fun enabled =>
        { cfg with simpleGet := enabled }
  | .eventPlaceholdersEnabled =>
      applyBool cfg value "invalid event_placeholders_enabled (expected true/false)" fun enabled =>
        { cfg with eventPlaceholdersEnabled := enabled }
  | .httpAuthTokens => accept { cfg with httpAuthTokens := splitCsv value }
  | .mqttHost => accept { cfg with mqttHost := value }
  | .mqttPort =>
      -- The port is parsed into the field itself.
      let parsed := parsePort value cfg.mqttPort
      let cfg := { cfg with mqttPort := parsed.2 }
      if parsed.1 then accept cfg else reject cfg "invalid mqtt_port (expected 1-65535)"
  | .mqttClientId => accept { cfg with mqttClientId := value }
  | .mqttQos =>
      applyLong cfg value 10 0 2 "invalid mqtt_qos (expected 0, 1, or 2)" fun qos =>
        { cfg with mqttQos := castInt qos }
  | .mqttPoolSize =>
      applyLong cfg value 10 1 64 "invalid mqtt_pool_size (expected 1-64)" fun n =>
        { cfg with mqttPoolSize := castInt n }
  | .mqttKeepaliveSeconds =>
      applyLong cfg value 10 5 3600 "invalid mqtt_keepalive_seconds (expected 5-3600)" fun v =>
        { cfg with mqttKeepaliveSeconds := castInt v }
  | .mqttConnectTimeoutSeconds =>
      applyLong cfg value 10 1 300 "invalid mqtt_connect_timeout_seconds (expected 1-300)" fun v =>
        { cfg with mqttConnectTimeoutSeconds := castInt v }
  | .mqttPublishTimeoutSeconds =>
      applyLong cfg value 10 1 300 "invalid mqtt_publish_timeout_seconds (expected 1-300)" fun v =>
        { cfg with mqttPublishTimeoutSeconds := castInt v }
  | .mqttQueueSize =>
      applyLong cfg value 10 1 65536 "invalid mqtt_queue_size (expected 1-65536)" fun v =>
        { cfg with mqttQueueSize := castInt v }
  | .mqttUsername => accept { cfg with mqttUsername := value }
  | .mqttPassword => accept { cfg with mqttPassword := value }
  | .subscribeEnabled =>
      applyBool cfg value "invalid subscribe_enabled (expected true/false)" fun enabled =>
        { cfg with subscribeEnabled := enabled }
  | .subscribeTopics => accept { cfg with subscribeTopics := splitCsv value }
  | .webhookEnabled =>
      applyBool cfg value "invalid webhook_enabled (expected true/false)" fun enabled =>
        { cfg with webhookEnabled := enabled }
  | .webhookUrl => accept { cfg with webhookUrl := value }
  | .webhookTopics => accept { cfg with webhookTopics := splitCsv value }
  | .webhookAuthHeader => accept { cfg with webhookAuthHeader := value }
  | .webhookAuthValue => accept { cfg with webhookAuthValue := value }
  | .webhookTlsInsecure =>
      applyBool cfg value "invalid webhook_tls_insecure (expected true/false)" fun insecure =>
        { cfg with webhookTlsInsecure := insecure }
  | .webhookTimeoutSeconds =>
      applyLong cfg value 10 1 300 "invalid webhook_timeout_seconds (expected 1-300)" fun v =>
        { cfg with webhookTimeoutSeconds := castInt v }
  | .webhookQueueSize =>
      applyLong cfg value 10 1 65536 "invalid webhook_queue_size (expected 1-65536)" fun v =>
        { cfg with webhookQueueSize := castInt v }
  | .stateEnabled =>
      applyBool cfg value "invalid state_enabled (expected true/false)" fun enabled =>
        { cfg with stateEnabled := enabled }
  | .stateFile => accept { cfg with stateFile := value }
  | .prometheusHttp =>
      applyBool cfg value "invalid prometheus_http (expected true/false)" fun enabled =>
        { cfg with prometheusHttp := enabled }
  | .prometheusTextfile => accept { cfg with prometheusTextfile := value }
  | .prometheusTextfileIntervalSeconds =>
      applyLong cfg value 10 1 86400
        "invalid prometheus_textfile_interval_seconds (expected 1-86400)"
        fun v => { cfg with prometheusTextfileIntervalSeconds := castInt v }
  | .prometheusPrefix => accept { cfg with prometheusPrefix := value }
  | .prometheusMqttStatePrefix => accept { cfg with prometheusMqttStatePrefix := value }
  | .stateTopicPrefix => accept { cfg with stateTopicPrefix := value }
  | .prometheusMqttJsonTopics => accept { cfg with prometheusMqttJsonTopics := splitCsv value }

/-- One key and its value.  An unknown key fails without an error text. -/
def applyKey (cfg : Config) (key value : Bytes) : Applied :=
  match findKey key with
  | none => ⟨false, cfg, []⟩
  | some k => applyKnown cfg value k

end Nshmqtt
