import Nshmqtt.ConfigKeys

/-!
# The config file and the environment

`load_config` and `apply_env_overrides`: the two front ends that prepare values for
`applyKey`.  The file is read line by line and each value is trimmed; the environment is
asked for one variable per key, in the order of a table.
-/

namespace Nshmqtt

open ByteStrings DecimalText

/-- The lines that `getline` gives: what follows the last newline counts only when it is not
empty. -/
def getLines (contents : Bytes) : List Bytes :=
  let pieces := contents.splitOn newline
  if pieces.getLast? = some [] then pieces.dropLast else pieces

/-- What a line says. -/
inductive ConfigLine where
  | blank
  | malformed
  | entry (key value : Bytes)
  deriving DecidableEq

def readLine (line : Bytes) : ConfigLine :=
  let trimmed := trim line
  if trimmed = [] ∨ trimmed.head? = some hash then .blank
  else
    match find trimmed [equals] 0 with
    | none => .malformed
    | some eq => .entry (trim (substr trimmed 0 eq)) (trim (trimmed.drop (eq + 1)))

/-- What `load_config` leaves in its arguments. -/
structure Loaded where
  ok : Bool
  cfg : Config
  err : Bytes
  warnings : Option (List Bytes)

/-- The place that messages start with. -/
def linePlace (path : Bytes) (lineNo : Nat) : Bytes :=
  path ++ ascii ":" ++ decimalText lineNo ++ ascii ": "

def unknownKeyWarning (path : Bytes) (lineNo : Nat) (key : Bytes) : Bytes :=
  linePlace path lineNo ++ ascii "unknown config key '" ++ key ++ ascii "'"

/-- The loop over the lines, behind `lineNo` lines. -/
def loadLines (path : Bytes) (lineNo : Nat) (cfg : Config) (warnings : Option (List Bytes)) :
    List Bytes → Loaded
  | [] => ⟨true, cfg, [], warnings⟩
  | line :: rest =>
      let lineNo := lineNo + 1
      match readLine line with
      | .blank => loadLines path lineNo cfg warnings rest
      | .malformed =>
          ⟨false, cfg, linePlace path lineNo ++ ascii "expected key=value", warnings⟩
      | .entry key value =>
          let applied := applyKey cfg key value
          if applied.ok then loadLines path lineNo applied.cfg warnings rest
          else if applied.err = [] then
            -- An unknown key is not fatal.
            loadLines path lineNo applied.cfg
              (warnings.map (· ++ [unknownKeyWarning path lineNo key])) rest
          else ⟨false, applied.cfg, linePlace path lineNo ++ applied.err, warnings⟩

/-- `load_config`; the file has no contents when it cannot be opened. -/
def loadConfig (path : Bytes) (file : Option Bytes) (cfg : Config)
    (warnings : Option (List Bytes)) : Loaded :=
  match file with
  | none => ⟨false, cfg, ascii "cannot open config file: " ++ path, warnings⟩
  | some contents => loadLines path 0 cfg warnings (getLines contents)

/-- The variable of each key. -/
def kEnvKeys : List (ConfigKey × Bytes) :=
  [(.socket, ascii "NSHMQTT_SOCKET"),
   (.socketMode, ascii "NSHMQTT_SOCKET_MODE"),
   (.threads, ascii "NSHMQTT_THREADS"),
   (.maxRequestBytes, ascii "NSHMQTT_MAX_REQUEST_BYTES"),
   (.maxBodyBytes, ascii "NSHMQTT_MAX_BODY_BYTES"),
   (.debugLog, ascii "NSHMQTT_DEBUG_LOG"),
   (.tcpPort, ascii "NSHMQTT_TCP_PORT"),
   (.tcpAddress, ascii "NSHMQTT_TCP_ADDRESS"),
   (.simpleGet, ascii "NSHMQTT_SIMPLE_GET"),
   (.eventPlaceholdersEnabled, ascii "NSHMQTT_EVENT_PLACEHOLDERS_ENABLED"),
   (.httpAuthTokens, ascii "NSHMQTT_HTTP_AUTH_TOKENS"),
   (.mqttHost, ascii "NSHMQTT_MQTT_HOST"),
   (.mqttPort, ascii "NSHMQTT_MQTT_PORT"),
   (.mqttClientId, ascii "NSHMQTT_MQTT_CLIENT_ID"),
   (.mqttQos, ascii "NSHMQTT_MQTT_QOS"),
   (.mqttPoolSize, ascii "NSHMQTT_MQTT_POOL_SIZE"),
   (.mqttKeepaliveSeconds, ascii "NSHMQTT_MQTT_KEEPALIVE_SECONDS"),
   (.mqttConnectTimeoutSeconds, ascii "NSHMQTT_MQTT_CONNECT_TIMEOUT_SECONDS"),
   (.mqttPublishTimeoutSeconds, ascii "NSHMQTT_MQTT_PUBLISH_TIMEOUT_SECONDS"),
   (.mqttQueueSize, ascii "NSHMQTT_MQTT_QUEUE_SIZE"),
   (.mqttUsername, ascii "NSHMQTT_MQTT_USERNAME"),
   (.mqttPassword, ascii "NSHMQTT_MQTT_PASSWORD"),
   (.subscribeEnabled, ascii "NSHMQTT_SUBSCRIBE_ENABLED"),
   (.subscribeTopics, ascii "NSHMQTT_SUBSCRIBE_TOPICS"),
   (.webhookEnabled, ascii "NSHMQTT_WEBHOOK_ENABLED"),
   (.webhookUrl, ascii "NSHMQTT_WEBHOOK_URL"),
   (.webhookTopics, ascii "NSHMQTT_WEBHOOK_TOPICS"),
   (.webhookAuthHeader, ascii "NSHMQTT_WEBHOOK_AUTH_HEADER"),
   (.webhookAuthValue, ascii "NSHMQTT_WEBHOOK_AUTH_VALUE"),
   (.webhookTlsInsecure, ascii "NSHMQTT_WEBHOOK_TLS_INSECURE"),
   (.webhookTimeoutSeconds, ascii "NSHMQTT_WEBHOOK_TIMEOUT_SECONDS"),
   (.webhookQueueSize, ascii "NSHMQTT_WEBHOOK_QUEUE_SIZE"),
   (.stateEnabled, ascii "NSHMQTT_STATE_ENABLED"),
   (.stateFile, ascii "NSHMQTT_STATE_FILE"),
   (.prometheusHttp, ascii "NSHMQTT_PROMETHEUS_HTTP"),
   (.prometheusTextfile, ascii "NSHMQTT_PROMETHEUS_TEXTFILE"),
   (.prometheusTextfileIntervalSeconds, ascii "NSHMQTT_PROMETHEUS_TEXTFILE_INTERVAL_SECONDS"),
   (.prometheusPrefix, ascii "NSHMQTT_PROMETHEUS_PREFIX"),
   (.prometheusMqttStatePrefix, ascii "NSHMQTT_PROMETHEUS_MQTT_STATE_PREFIX"),
   (.stateTopicPrefix, ascii "NSHMQTT_STATE_TOPIC_PREFIX"),
   (.prometheusMqttJsonTopics, ascii "NSHMQTT_PROMETHEUS_MQTT_JSON_TOPICS")]

/-- The loop over the table of variables. -/
def overrideKeys (getenv : Bytes → Option Bytes) (cfg : Config) :
    List (ConfigKey × Bytes) → Applied
  | [] => accept cfg
  | (key, envName) :: rest =>
      match getenv envName with
      | none => overrideKeys getenv cfg rest
      | some v =>
          let applied := applyKey cfg key.name v
          if applied.ok then overrideKeys getenv applied.cfg rest
          else
            let message := if applied.err = [] then ascii "invalid value" else applied.err
            ⟨false, applied.cfg, envName ++ ascii ": " ++ message⟩

def applyEnvOverrides (getenv : Bytes → Option Bytes) (cfg : Config) : Applied :=
  overrideKeys getenv cfg kEnvKeys

/-- `std::toupper` in the C locale. -/
def toupper (c : UInt8) : UInt8 := if 97 ≤ c ∧ c ≤ 122 then c - 32 else c

def ConfigKey.envName (key : ConfigKey) : Bytes := ascii "NSHMQTT_" ++ key.name.map toupper

/-- The table has every key once, in the order of `apply_key`, with its name in capitals. -/
theorem kEnvKeys_eq : kEnvKeys = ConfigKey.all.map fun key => (key, key.envName) := by
  decide +kernel

theorem ConfigKey.mem_all (key : ConfigKey) : key ∈ ConfigKey.all := by
  cases key <;> decide

theorem ConfigKey.nodup_all : ConfigKey.all.Nodup := by
  decide

/-- Every key is found under its name. -/
theorem findKey_name (key : ConfigKey) : findKey key.name = some key := by
  have hall : (ConfigKey.all.all fun key => findKey key.name == some key) = true := by
    decide +kernel
  exact eq_of_beq (List.all_eq_true.mp hall key key.mem_all)

end Nshmqtt
