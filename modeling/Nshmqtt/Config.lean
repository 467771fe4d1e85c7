import Nshmqtt.TextUtil

/-!
# The configuration

The settings of `config.h` with their defaults.  Two of the defaults ask the system: the
number of worker threads and the random part of the client id.
-/

namespace Nshmqtt

open ByteStrings

/-- `static_cast<int>`: the low 32 bits, read as a signed number. -/
def castInt (n : Int) : Int := n.bmod (2 ^ 32)

/-- The number of threads for the detected number of processors, zero when it is not known. -/
def defaultThreadCount (detected : UInt32) : Int :=
  let kFloor : Int := 4
  let kCap : Int := 20
  let kFallback : Int := 8
  if detected = 0 then kFallback
  else
    let n := castInt detected.toNat
    if n < kFloor then kFloor
    else if n > kCap then kCap
    else n

/-- The client id, with four random bytes in hexadecimal. -/
def defaultClientId (random : Fin 4 → UInt8) : Bytes :=
  ascii "nshmqtt_" ++ (List.ofFn random).flatMap fun byte =>
    [hexDigit (byte.toNat / 16), hexDigit (byte.toNat % 16)]

structure Config where
  socketPath : Bytes := ascii "/run/nshmqtt/nshmqtt.sock"
  socketMode : Nat := 0o660
  threads : Int := defaultThreadCount 0
  maxRequestBytes : Nat := 8192
  maxBodyBytes : Nat := 65536
  debugLog : Bool := false
  tcpPort : Int := 0
  tcpAddress : Bytes := []
  simpleGet : Bool := true
  httpAuthTokens : List Bytes := []
  eventPlaceholdersEnabled : Bool := false
  mqttHost : Bytes := ascii "127.0.0.1"
  mqttPort : Int := 1883
  mqttClientId : Bytes := defaultClientId fun _ => 0
  mqttQos : Int := 1
  mqttPoolSize : Int := 1
  mqttKeepaliveSeconds : Int := 60
  mqttConnectTimeoutSeconds : Int := 10
  mqttPublishTimeoutSeconds : Int := 5
  mqttQueueSize : Int := 256
  mqttUsername : Bytes := []
  mqttPassword : Bytes := []
  subscribeEnabled : Bool := false
  subscribeTopics : List Bytes := [ascii "#"]
  webhookEnabled : Bool := false
  webhookUrl : Bytes := []
  webhookTopics : List Bytes := [ascii "#"]
  webhookAuthHeader : Bytes := []
  webhookAuthValue : Bytes := []
  webhookTlsInsecure : Bool := false
  webhookTimeoutSeconds : Int := 5
  webhookQueueSize : Int := 256
  stateEnabled : Bool := true
  stateFile : Bytes := ascii "/var/lib/nshmqtt/state.json"
  prometheusHttp : Bool := true
  prometheusTextfile : Bytes := []
  prometheusTextfileIntervalSeconds : Int := 60
  prometheusPrefix : Bytes := ascii "nshmqtt_"
  prometheusMqttStatePrefix : Bytes := ascii "mqtt_"
  stateTopicPrefix : Bytes := []
  prometheusMqttJsonTopics : List Bytes := []

/-- The settings at the start of the program. -/
def defaultConfig (detected : UInt32) (random : Fin 4 → UInt8) : Config where
  threads := defaultThreadCount detected
  mqttClientId := defaultClientId random

end Nshmqtt
