import Nshmqtt.ConfigFile
import Nshmqtt.LastAssignments

/-!
# The settings as fields

Each branch of `applyKey` overwrites one field with what a rule reads from the text, whatever
the settings were before.  The rule of a key says what its texts mean and which are refused;
`applyKnown_follows` is all that is needed of the branches.
-/

namespace Nshmqtt

open ByteStrings LastAssignments

/-- How the text of a key is read. -/
inductive Rule where
  | text
  | flag
  | list
  | natural (base low high : Nat)
  | number (low high : Int)
  | optionalPort

namespace Rule

abbrev Value : Rule → Type
  | .text => Bytes
  | .flag => Bool
  | .list => List Bytes
  | .natural _ _ _ => Nat
  | .number _ _ => Int
  | .optionalPort => Int

/-- A number between two bounds. -/
def between (base : Nat) (low high : Int) (value : Bytes) : Option Int :=
  (parseLong base value).filter fun v => low ≤ v ∧ v ≤ high

/-- The value that a text gives, if it is accepted. -/
def read : (rule : Rule) → Bytes → Option rule.Value
  | .text, value => some value
  | .flag, value => parseBool value
  | .list, value => some (splitCsv value)
  | .natural base low high, value => (between base low high value).map Int.toNat
  | .number low high, value => between 10 low high value
  | .optionalPort, value =>
      if value = [] ∨ value = ascii "0" then some 0 else between 10 1 65535 value

end Rule

/-- The rule of a key. -/
abbrev ConfigKey.rule : ConfigKey → Rule
  | .socket => .text
  | .socketMode => .natural 8 0 0o7777
  | .threads => .number 1 256
  | .maxRequestBytes => .natural 10 256 1048576
  | .maxBodyBytes => .natural 10 1 16777216
  | .debugLog => .flag
  | .tcpPort => .optionalPort
  | .tcpAddress => .text
  | .simpleGet => .flag
  | .eventPlaceholdersEnabled => .flag
  | .httpAuthTokens => .list
  | .mqttHost => .text
  | .mqttPort => .number 1 65535
  | .mqttClientId => .text
  | .mqttQos => .number 0 2
  | .mqttPoolSize => .number 1 64
  | .mqttKeepaliveSeconds => .number 5 3600
  | .mqttConnectTimeoutSeconds => .number 1 300
  | .mqttPublishTimeoutSeconds => .number 1 300
  | .mqttQueueSize => .number 1 65536
  | .mqttUsername => .text
  | .mqttPassword => .text
  | .subscribeEnabled => .flag
  | .subscribeTopics => .list
  | .webhookEnabled => .flag
  | .webhookUrl => .text
  | .webhookTopics => .list
  | .webhookAuthHeader => .text
  | .webhookAuthValue => .text
  | .webhookTlsInsecure => .flag
  | .webhookTimeoutSeconds => .number 1 300
  | .webhookQueueSize => .number 1 65536
  | .stateEnabled => .flag
  | .stateFile => .text
  | .prometheusHttp => .flag
  | .prometheusTextfile => .text
  | .prometheusTextfileIntervalSeconds => .number 1 86400
  | .prometheusPrefix => .text
  | .prometheusMqttStatePrefix => .text
  | .stateTopicPrefix => .text
  | .prometheusMqttJsonTopics => .list

namespace Config

/-- The settings, as a function of the key. -/
def get (cfg : Config) : (key : ConfigKey) → key.rule.Value
  | .socket => cfg.socketPath
  | .socketMode => cfg.socketMode
  | .threads => cfg.threads
  | .maxRequestBytes => cfg.maxRequestBytes
  | .maxBodyBytes => cfg.maxBodyBytes
  | .debugLog => cfg.debugLog
  | .tcpPort => cfg.tcpPort
  | .tcpAddress => cfg.tcpAddress
  | .simpleGet => cfg.simpleGet
  | .eventPlaceholdersEnabled => cfg.eventPlaceholdersEnabled
  | .httpAuthTokens => cfg.httpAuthTokens
  | .mqttHost => cfg.mqttHost
  | .mqttPort => cfg.mqttPort
  | .mqttClientId => cfg.mqttClientId
  | .mqttQos => cfg.mqttQos
  | .mqttPoolSize => cfg.mqttPoolSize
  | .mqttKeepaliveSeconds => cfg.mqttKeepaliveSeconds
  | .mqttConnectTimeoutSeconds => cfg.mqttConnectTimeoutSeconds
  | .mqttPublishTimeoutSeconds => cfg.mqttPublishTimeoutSeconds
  | .mqttQueueSize => cfg.mqttQueueSize
  | .mqttUsername => cfg.mqttUsername
  | .mqttPassword => cfg.mqttPassword
  | .subscribeEnabled => cfg.subscribeEnabled
  | .subscribeTopics => cfg.subscribeTopics
  | .webhookEnabled => cfg.webhookEnabled
  | .webhookUrl => cfg.webhookUrl
  | .webhookTopics => cfg.webhookTopics
  | .webhookAuthHeader => cfg.webhookAuthHeader
  | .webhookAuthValue => cfg.webhookAuthValue
  | .webhookTlsInsecure => cfg.webhookTlsInsecure
  | .webhookTimeoutSeconds => cfg.webhookTimeoutSeconds
  | .webhookQueueSize => cfg.webhookQueueSize
  | .stateEnabled => cfg.stateEnabled
  | .stateFile => cfg.stateFile
  | .prometheusHttp => cfg.prometheusHttp
  | .prometheusTextfile => cfg.prometheusTextfile
  | .prometheusTextfileIntervalSeconds => cfg.prometheusTextfileIntervalSeconds
  | .prometheusPrefix => cfg.prometheusPrefix
  | .prometheusMqttStatePrefix => cfg.prometheusMqttStatePrefix
  | .stateTopicPrefix => cfg.stateTopicPrefix
  | .prometheusMqttJsonTopics => cfg.prometheusMqttJsonTopics

/-- The settings with the given values. -/
def ofFields (field : (key : ConfigKey) → key.rule.Value) : Config where
  socketPath := field .socket
  socketMode := field .socketMode
  threads := field .threads
  maxRequestBytes := field .maxRequestBytes
  maxBodyBytes := field .maxBodyBytes
  debugLog := field .debugLog
  tcpPort := field .tcpPort
  tcpAddress := field .tcpAddress
  simpleGet := field .simpleGet
  httpAuthTokens := field .httpAuthTokens
  eventPlaceholdersEnabled := field .eventPlaceholdersEnabled
  mqttHost := field .mqttHost
  mqttPort := field .mqttPort
  mqttClientId := field .mqttClientId
  mqttQos := field .mqttQos
  mqttPoolSize := field .mqttPoolSize
  mqttKeepaliveSeconds := field .mqttKeepaliveSeconds
  mqttConnectTimeoutSeconds := field .mqttConnectTimeoutSeconds
  mqttPublishTimeoutSeconds := field .mqttPublishTimeoutSeconds
  mqttQueueSize := field .mqttQueueSize
  mqttUsername := field .mqttUsername
  mqttPassword := field .mqttPassword
  subscribeEnabled := field .subscribeEnabled
  subscribeTopics := field .subscribeTopics
  webhookEnabled := field .webhookEnabled
  webhookUrl := field .webhookUrl
  webhookTopics := field .webhookTopics
  webhookAuthHeader := field .webhookAuthHeader
  webhookAuthValue := field .webhookAuthValue
  webhookTlsInsecure := field .webhookTlsInsecure
  webhookTimeoutSeconds := field .webhookTimeoutSeconds
  webhookQueueSize := field .webhookQueueSize
  stateEnabled := field .stateEnabled
  stateFile := field .stateFile
  prometheusHttp := field .prometheusHttp
  prometheusTextfile := field .prometheusTextfile
  prometheusTextfileIntervalSeconds := field .prometheusTextfileIntervalSeconds
  prometheusPrefix := field .prometheusPrefix
  prometheusMqttStatePrefix := field .prometheusMqttStatePrefix
  stateTopicPrefix := field .stateTopicPrefix
  prometheusMqttJsonTopics := field .prometheusMqttJsonTopics

def set (cfg : Config) (key : ConfigKey) (value : key.rule.Value) : Config :=
  ofFields (Function.update cfg.get key value)

/-- A record of the fields has these fields. -/
theorem get_ofFields (field : (key : ConfigKey) → key.rule.Value) :
    (ofFields field).get = field := by
  funext key
  cases key <;> rfl

theorem ofFields_get (cfg : Config) : ofFields cfg.get = cfg := rfl

/-- The settings are their fields. -/
def fields : Fields Config fun key : ConfigKey => key.rule.Value where
  get := get
  set := set
  get_set := fun _ _ _ => get_ofFields _
  ext := by
    intro a b h
    rw [← ofFields_get a, h, ofFields_get]

end Config

/-- The cast to `int` changes nothing in 32 bits with a sign. -/
theorem castInt_eq {v : Int} (hlow : -2 ^ 31 ≤ v) (hhigh : v < 2 ^ 31) : castInt v = v := by
  unfold castInt
  rw [Int.bmod_def]
  split <;> omega

theorem castMode_eq {v : Int} (hlow : 0 ≤ v) (hhigh : v < 2 ^ 32) : castMode v = v.toNat := by
  rw [castMode, Int.emod_eq_of_lt hlow hhigh]

theorem castSize_eq {v : Int} (hlow : 0 ≤ v) (hhigh : v < 2 ^ 64) : castSize v = v.toNat := by
  rw [castSize, Int.emod_eq_of_lt hlow hhigh]

/-- A value is read between two bounds when the number is. -/
theorem between_eq_some_iff {base : Nat} {low high v : Int} {value : Bytes} :
    Rule.between base low high value = some v ↔
      parseLong base value = some v ∧ low ≤ v ∧ v ≤ high := by
  rw [Rule.between, Option.filter_eq_some_iff, decide_eq_true_eq]

/-- The result of a branch that writes what was read, and that otherwise changes nothing and
names its key in the error. -/
def Follows {α : Type} (cfg : Config) (key : ConfigKey) (read : Option α) (write : α → Config)
    (result : Applied) : Prop :=
  match read with
  | some x => result = accept (write x)
  | none => result.ok = false ∧ result.cfg = cfg ∧ ascii "invalid " ++ key.name <+: result.err

section Branches

variable {cfg : Config} {key : ConfigKey} {value : Bytes} {message : String}

/-- The message starts with the name of the key. -/
abbrev Names (message : String) (key : ConfigKey) : Prop :=
  (ascii "invalid " ++ key.name).isPrefixOf (ascii message) = true

theorem follows_accept {α : Type} (x : α) (write : α → Config) :
    Follows cfg key (some x) write (accept (write x)) :=
  rfl

/-- A value that is rejected is named in the error. -/
theorem follows_reject {α : Type} (h : Names message key) (write : α → Config) :
    Follows cfg key none write (reject cfg message) :=
  ⟨rfl, rfl, List.isPrefixOf_iff_prefix.mp h⟩

/-- Booleans follow `parseBool`. -/
theorem follows_bool (h : Names message key) (write : Bool → Config) :
    Follows cfg key (parseBool value) write (applyBool cfg value message write) := by
  unfold applyBool
  cases parseBool value with
  | none => exact follows_reject h write
  | some enabled => exact follows_accept enabled write

/-- A branch for a number, where the cast does nothing to the numbers in the range. -/
theorem follows_long {base : Nat} {low high : Int} (h : Names message key) {write : Int → Config}
    {assign : Int → Config} (hwrite : ∀ v, low ≤ v → v ≤ high → assign v = write v) :
    Follows cfg key (Rule.between base low high value) write
      (applyLong cfg value base low high message assign) := by
  unfold applyLong Rule.between
  cases parseLong base value with
  | none => exact follows_reject h write
  | some v =>
      dsimp only
      by_cases hrange : low ≤ v ∧ v ≤ high
      · rw [if_neg (by omega), hwrite v hrange.1 hrange.2,
          Option.filter_some_pos (by simpa using hrange)]
        exact follows_accept v write
      · rw [if_pos (by omega), Option.filter_some_neg (by simpa using hrange)]
        exact follows_reject h write

/-- Numbers follow `parseLong` between two bounds that fit an `int`. -/
theorem follows_number {low high : Int} (h : Names message key) (hlow : -2 ^ 31 ≤ low)
    (hhigh : high < 2 ^ 31) (write : Int → Config) :
    Follows cfg key (Rule.between 10 low high value) write
      (applyLong cfg value 10 low high message fun v => write (castInt v)) := by
  apply follows_long h
  intro v hv hv'
  rw [castInt_eq (hlow.trans hv) (hv'.trans_lt hhigh)]

/-- A branch whose field is unsigned. -/
theorem follows_natural {base : Nat} {low high : Int} {cast : Int → Nat} (h : Names message key)
    (hcast : ∀ v, low ≤ v → v ≤ high → cast v = v.toNat) (write : Nat → Config) :
    Follows cfg key ((Rule.between base low high value).map Int.toNat) write
      (applyLong cfg value base low high message fun v => write (cast v)) := by
  have hlong : Follows cfg key (Rule.between base low high value) (fun v => write v.toNat)
      (applyLong cfg value base low high message fun v => write (cast v)) :=
    follows_long h fun v hlow hhigh => by rw [hcast v hlow hhigh]
  cases hread : Rule.between base low high value with
  | none =>
      rw [hread] at hlong
      exact hlong
  | some v =>
      rw [hread] at hlong
      exact hlong

end Branches

/-- Ports are numbers from 1 to 65535. -/
theorem parsePort_eq (text : Bytes) (out : Int) :
    parsePort text out = ((Rule.between 10 1 65535 text).elim (false, out) fun v => (true, v)) := by
  unfold parsePort Rule.between
  cases parseLong 10 text with
  | none => rfl
  | some v =>
      dsimp only
      by_cases hrange : 1 ≤ v ∧ v ≤ 65535
      · rw [if_neg (by omega), castInt_eq (by omega) (by omega),
          Option.filter_some_pos (by simpa using hrange)]
        rfl
      · rw [if_pos (by omega), Option.filter_some_neg (by simpa using hrange)]
        rfl

/-- **What a call does with a known key**: it reads the text by the rule of the key and
overwrites its field, and nothing else. -/
theorem applyKnown_follows (cfg : Config) (value : Bytes) (key : ConfigKey) :
    Follows cfg key (key.rule.read value) (cfg.set key) (applyKnown cfg value key) := by
  cases key
  case socket | tcpAddress | mqttHost | mqttClientId | mqttUsername | mqttPassword | webhookUrl |
      webhookAuthHeader | webhookAuthValue | stateFile | prometheusTextfile | prometheusPrefix |
      prometheusMqttStatePrefix | stateTopicPrefix =>
    exact follows_accept value _
  case httpAuthTokens | subscribeTopics | webhookTopics | prometheusMqttJsonTopics =>
    exact follows_accept (splitCsv value) _
  case debugLog | simpleGet | eventPlaceholdersEnabled | subscribeEnabled | webhookEnabled |
      webhookTlsInsecure | stateEnabled | prometheusHttp =>
    exact follows_bool (by decide +kernel) _
  case threads | mqttQos | mqttPoolSize | mqttKeepaliveSeconds | mqttConnectTimeoutSeconds |
      mqttPublishTimeoutSeconds | mqttQueueSize | webhookTimeoutSeconds | webhookQueueSize |
      prometheusTextfileIntervalSeconds =>
    exact follows_number (by decide +kernel) (by decide) (by decide) _
  case socketMode =>
    apply follows_natural (by decide +kernel)
    intro v hlow hhigh
    exact castMode_eq hlow (by omega)
  case maxRequestBytes | maxBodyBytes =>
    apply follows_natural (by decide +kernel)
    intro v hlow hhigh
    exact castSize_eq (by omega) (by omega)
  case tcpPort =>
    rw [applyKnown, Rule.read]
    by_cases hvalue : value ≠ [] ∧ value ≠ ascii "0"
    · rw [if_pos hvalue, if_neg (not_or.mpr hvalue), parsePort_eq]
      cases Rule.between 10 1 65535 value with
      | none => exact follows_reject (by decide +kernel) _
      | some port => exact follows_accept port _
    · rw [if_neg hvalue, if_pos (by tauto)]
      exact follows_accept (0 : Int) _
  case mqttPort =>
    rw [applyKnown, Rule.read, parsePort_eq]
    cases Rule.between 10 1 65535 value with
    | none => exact follows_reject (by decide +kernel) _
    | some port => exact follows_accept port _

/-- A value that its rule reads is set. -/
theorem applyKnown_of_some {cfg : Config} {value : Bytes} {key : ConfigKey} {x : key.rule.Value}
    (h : key.rule.read value = some x) : applyKnown cfg value key = accept (cfg.set key x) := by
  have hfollows := applyKnown_follows cfg value key
  rw [h] at hfollows
  exact hfollows

/-- A value that its rule does not read changes nothing, and the error names the key. -/
theorem applyKnown_of_none {cfg : Config} {value : Bytes} {key : ConfigKey}
    (h : key.rule.read value = none) :
    (applyKnown cfg value key).ok = false ∧ (applyKnown cfg value key).cfg = cfg ∧
      ascii "invalid " ++ key.name <+: (applyKnown cfg value key).err := by
  have hfollows := applyKnown_follows cfg value key
  rw [h] at hfollows
  exact hfollows

/-- A call succeeds when the rule of its key accepts the text. -/
theorem applyKnown_ok_iff {cfg : Config} {value : Bytes} {key : ConfigKey} :
    (applyKnown cfg value key).ok = true ↔ (key.rule.read value).isSome = true := by
  cases hread : key.rule.read value with
  | none => simp [applyKnown_of_none hread]
  | some x => simp [applyKnown_of_some hread, accept]

/-- The error text of a known key is never empty, so it is never taken for an unknown one. -/
theorem applyKnown_err_ne_nil {cfg : Config} {value : Bytes} {key : ConfigKey}
    (h : key.rule.read value = none) : (applyKnown cfg value key).err ≠ [] := by
  intro herr
  obtain ⟨-, -, hprefix⟩ := applyKnown_of_none h
  rw [herr, List.prefix_nil] at hprefix
  exact absurd (List.append_eq_nil_iff.mp hprefix).1 (by decide)

/-- **A failing call changes nothing.** -/
theorem applyKey_of_not_ok {cfg : Config} {key value : Bytes}
    (h : (applyKey cfg key value).ok = false) : (applyKey cfg key value).cfg = cfg := by
  unfold applyKey at h ⊢
  cases hkey : findKey key with
  | none => rfl
  | some k =>
      rw [hkey] at h
      have hread : k.rule.read value = none := by
        rw [← Option.not_isSome_iff_eq_none, ← applyKnown_ok_iff, h]
        exact Bool.false_ne_true
      exact (applyKnown_of_none hread).2.1

/-- The name of a known key leads to its rule. -/
theorem applyKey_name (cfg : Config) (key : ConfigKey) (value : Bytes) :
    applyKey cfg key.name value = applyKnown cfg value key := by
  rw [applyKey, findKey_name]

end Nshmqtt
