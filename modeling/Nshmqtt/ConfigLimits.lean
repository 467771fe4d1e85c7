import Nshmqtt.ConfigFields

/-!
# The limits of the settings

The rest of the program relies on bounds of the settings: sizes of pools and queues, ports,
timeouts, and lists without empty entries.  They hold by default, and each call of `applyKey`
keeps them, whether it succeeds or fails.

* `Rule.read_allowed` : what a rule accepts is within the rule's limits;
* `loadLines_cfg`, `overrideKeys_cfg` : the two front ends make calls and nothing else;
* `withinLimits_after_calls` : the limits hold after every single call of a start.
-/

namespace Nshmqtt

open ByteStrings LastAssignments

/-- An entry of a list: not empty, without a comma and without whitespace around it. -/
structure IsEntry (entry : Bytes) : Prop where
  nonempty : entry ≠ []
  plain : comma ∉ entry
  trimmed : Trimmed isspace entry

/-- The limits that the program relies on. -/
structure SettingsWithinLimits (cfg : Config) : Prop where
  socketMode : cfg.socketMode ≤ 0o7777
  threads : 1 ≤ cfg.threads ∧ cfg.threads ≤ 256
  maxRequestBytes : 256 ≤ cfg.maxRequestBytes ∧ cfg.maxRequestBytes ≤ 1048576
  maxBodyBytes : 1 ≤ cfg.maxBodyBytes ∧ cfg.maxBodyBytes ≤ 16777216
  tcpPort : 0 ≤ cfg.tcpPort ∧ cfg.tcpPort ≤ 65535
  mqttPort : 1 ≤ cfg.mqttPort ∧ cfg.mqttPort ≤ 65535
  mqttQos : 0 ≤ cfg.mqttQos ∧ cfg.mqttQos ≤ 2
  mqttPoolSize : 1 ≤ cfg.mqttPoolSize ∧ cfg.mqttPoolSize ≤ 64
  mqttKeepaliveSeconds : 5 ≤ cfg.mqttKeepaliveSeconds ∧ cfg.mqttKeepaliveSeconds ≤ 3600
  mqttConnectTimeoutSeconds :
    1 ≤ cfg.mqttConnectTimeoutSeconds ∧ cfg.mqttConnectTimeoutSeconds ≤ 300
  mqttPublishTimeoutSeconds :
    1 ≤ cfg.mqttPublishTimeoutSeconds ∧ cfg.mqttPublishTimeoutSeconds ≤ 300
  mqttQueueSize : 1 ≤ cfg.mqttQueueSize ∧ cfg.mqttQueueSize ≤ 65536
  webhookTimeoutSeconds : 1 ≤ cfg.webhookTimeoutSeconds ∧ cfg.webhookTimeoutSeconds ≤ 300
  webhookQueueSize : 1 ≤ cfg.webhookQueueSize ∧ cfg.webhookQueueSize ≤ 65536
  prometheusTextfileIntervalSeconds :
    1 ≤ cfg.prometheusTextfileIntervalSeconds ∧ cfg.prometheusTextfileIntervalSeconds ≤ 86400
  httpAuthTokens : ∀ entry ∈ cfg.httpAuthTokens, IsEntry entry
  subscribeTopics : ∀ entry ∈ cfg.subscribeTopics, IsEntry entry
  webhookTopics : ∀ entry ∈ cfg.webhookTopics, IsEntry entry
  prometheusMqttJsonTopics : ∀ entry ∈ cfg.prometheusMqttJsonTopics, IsEntry entry

/-- The values that a rule can give. -/
def Rule.Allowed : (rule : Rule) → rule.Value → Prop
  | .text, _ => True
  | .flag, _ => True
  | .list, entries => ∀ entry ∈ entries, IsEntry entry
  | .natural _ low high, n => low ≤ n ∧ n ≤ high
  | .number low high, n => low ≤ n ∧ n ≤ high
  | .optionalPort, n => 0 ≤ n ∧ n ≤ 65535

/-- What `splitCsv` gives is trimmed and without a comma. -/
theorem isEntry_of_mem_splitCsv {value entry : Bytes} (h : entry ∈ splitCsv value) :
    IsEntry entry := by
  rw [splitCsv, List.mem_filter, List.mem_map] at h
  obtain ⟨⟨piece, hpiece, rfl⟩, hne⟩ := h
  obtain ⟨left, right, hparts, -, -⟩ := exists_trimBoth isspace piece
  refine ⟨by simpa using hne, ?_, trimmed_trimBoth isspace piece⟩
  intro hcomma
  apply (of_mem_splitOn hpiece).1
  rw [hparts]
  simp only [List.mem_append]
  exact .inl (.inr hcomma)

/-- **What a rule accepts is within its limits**, for every text. -/
theorem Rule.read_allowed {rule : Rule} {value : Bytes} {x : rule.Value}
    (h : rule.read value = some x) : rule.Allowed x := by
  cases rule with
  | text => trivial
  | flag => trivial
  | list =>
      cases h
      exact fun entry hentry => isEntry_of_mem_splitCsv hentry
  | natural base low high =>
      obtain ⟨v, hv, rfl⟩ := Option.map_eq_some_iff.mp h
      obtain ⟨-, hlow, hhigh⟩ := between_eq_some_iff.mp hv
      have hrange : low ≤ v.toNat ∧ v.toNat ≤ high := by omega
      exact hrange
  | number low high =>
      obtain ⟨-, hrange⟩ := between_eq_some_iff.mp h
      exact hrange
  | optionalPort =>
      rw [Rule.read] at h
      split_ifs at h with hzero
      · cases h
        have hrange : (0 : Int) ≤ 0 ∧ (0 : Int) ≤ 65535 := by decide
        exact hrange
      · obtain ⟨-, hlow, hhigh⟩ := between_eq_some_iff.mp h
        exact ⟨Int.le_trans (by decide) hlow, hhigh⟩

/-- Every field is within the limits of its rule. -/
def AllAllowed (cfg : Config) : Prop := ∀ key : ConfigKey, key.rule.Allowed (cfg.get key)

/-- The limits of the single keys, by the names of the fields. -/
theorem AllAllowed.withinLimits {cfg : Config} (h : AllAllowed cfg) : SettingsWithinLimits cfg where
  socketMode := (h .socketMode).2
  threads := h .threads
  maxRequestBytes := h .maxRequestBytes
  maxBodyBytes := h .maxBodyBytes
  tcpPort := h .tcpPort
  mqttPort := h .mqttPort
  mqttQos := h .mqttQos
  mqttPoolSize := h .mqttPoolSize
  mqttKeepaliveSeconds := h .mqttKeepaliveSeconds
  mqttConnectTimeoutSeconds := h .mqttConnectTimeoutSeconds
  mqttPublishTimeoutSeconds := h .mqttPublishTimeoutSeconds
  mqttQueueSize := h .mqttQueueSize
  webhookTimeoutSeconds := h .webhookTimeoutSeconds
  webhookQueueSize := h .webhookQueueSize
  prometheusTextfileIntervalSeconds := h .prometheusTextfileIntervalSeconds
  httpAuthTokens := h .httpAuthTokens
  subscribeTopics := h .subscribeTopics
  webhookTopics := h .webhookTopics
  prometheusMqttJsonTopics := h .prometheusMqttJsonTopics

/-- One field that is written with an allowed value keeps the limits of all. -/
theorem AllAllowed.set {cfg : Config} (h : AllAllowed cfg) {key : ConfigKey} {x : key.rule.Value}
    (hx : key.rule.Allowed x) : AllAllowed (cfg.set key x) := by
  intro other
  change other.rule.Allowed ((Config.fields.set cfg key x |> Config.fields.get) other)
  rw [Config.fields.get_set]
  by_cases hkey : other = key
  · subst hkey
    rwa [Function.update_self]
  · rw [Function.update_of_ne hkey]
    exact h other

/-- **A call keeps the limits**, also when it fails. -/
theorem AllAllowed.applyKey {cfg : Config} (h : AllAllowed cfg) (key value : Bytes) :
    AllAllowed (applyKey cfg key value).cfg := by
  rw [Nshmqtt.applyKey]
  cases findKey key with
  | none => exact h
  | some known =>
      dsimp only
      cases hread : known.rule.read value with
      | none =>
          rw [(applyKnown_of_none hread).2.1]
          exact h
      | some x =>
          rw [applyKnown_of_some hread]
          exact h.set (Rule.read_allowed hread)

/-- The default number of threads is within its limits on every machine. -/
theorem defaultThreadCount_bounds (detected : UInt32) :
    4 ≤ defaultThreadCount detected ∧ defaultThreadCount detected ≤ 20 := by
  unfold defaultThreadCount
  dsimp only
  split_ifs <;> omega

theorem isEntry_hash : IsEntry (ascii "#") := ⟨by decide, by decide, trimmed_singleton rfl⟩

/-- Every default is within the limits of its own key. -/
theorem allAllowed_default (detected : UInt32) (random : Fin 4 → UInt8) :
    AllAllowed (defaultConfig detected random) := by
  have hempty : AllAllowed {} := by
    intro key
    cases key
    case httpAuthTokens | prometheusMqttJsonTopics => exact List.forall_mem_nil _
    case subscribeTopics | webhookTopics => exact List.forall_mem_singleton.mpr isEntry_hash
    case socketMode | threads | maxRequestBytes | maxBodyBytes | tcpPort | mqttPort | mqttQos |
        mqttPoolSize | mqttKeepaliveSeconds | mqttConnectTimeoutSeconds |
        mqttPublishTimeoutSeconds | mqttQueueSize | webhookTimeoutSeconds | webhookQueueSize |
        prometheusTextfileIntervalSeconds =>
      exact ⟨by decide, by decide⟩
    all_goals trivial
  have hthreads : ConfigKey.threads.rule.Allowed (defaultThreadCount detected) := by
    obtain ⟨hlow, hhigh⟩ := defaultThreadCount_bounds detected
    have hrange : 1 ≤ defaultThreadCount detected ∧ defaultThreadCount detected ≤ 256 := by omega
    exact hrange
  have hclient : ConfigKey.mqttClientId.rule.Allowed (defaultClientId random) := trivial
  exact (hempty.set hthreads).set hclient

/-- The key and the value of a call. -/
abbrev Call := Bytes × Bytes

/-- The settings after some calls. -/
def afterCalls (cfg : Config) (calls : List Call) : Config :=
  calls.foldl (fun cfg call => (applyKey cfg call.1 call.2).cfg) cfg

/-- The calls that the lines of a file lead to, up to the first that is refused. -/
def fileCalls (cfg : Config) : List Bytes → List Call
  | [] => []
  | line :: rest =>
      match readLine line with
      | .blank => fileCalls cfg rest
      | .malformed => []
      | .entry key value =>
          let applied := applyKey cfg key value
          (key, value) ::
            if applied.ok = true ∨ applied.err = [] then fileCalls applied.cfg rest else []

/-- The calls for the variables that are set, up to the first that is refused. -/
def envCalls (getenv : Bytes → Option Bytes) (cfg : Config) :
    List (ConfigKey × Bytes) → List Call
  | [] => []
  | (key, envName) :: rest =>
      match getenv envName with
      | none => envCalls getenv cfg rest
      | some v =>
          let applied := applyKey cfg key.name v
          (key.name, v) :: if applied.ok = true then envCalls getenv applied.cfg rest else []

theorem afterCalls_cons (cfg : Config) (call : Call) (rest : List Call) :
    afterCalls cfg (call :: rest) = afterCalls (applyKey cfg call.1 call.2).cfg rest :=
  rfl

theorem afterCalls_append (cfg : Config) (before after : List Call) :
    afterCalls cfg (before ++ after) = afterCalls (afterCalls cfg before) after :=
  List.foldl_append

/-- The loop over the lines makes its calls and nothing else. -/
theorem loadLines_cfg (path : Bytes) (lineNo : Nat) (cfg : Config)
    (warnings : Option (List Bytes)) (lines : List Bytes) :
    (loadLines path lineNo cfg warnings lines).cfg = afterCalls cfg (fileCalls cfg lines) := by
  induction lines generalizing lineNo cfg warnings with
  | nil => rfl
  | cons line rest ih =>
      rw [loadLines, fileCalls]
      cases readLine line with
      | blank => exact ih (lineNo + 1) cfg warnings
      | malformed => rfl
      | entry key value =>
          dsimp only
          rw [afterCalls_cons]
          cases hok : (applyKey cfg key value).ok with
          | true =>
              rw [if_pos rfl, if_pos (.inl rfl)]
              exact ih _ _ _
          | false =>
              rw [if_neg Bool.false_ne_true]
              by_cases herr : (applyKey cfg key value).err = []
              · rw [if_pos herr, if_pos (.inr herr)]
                exact ih _ _ _
              · rw [if_neg herr, if_neg (not_or.mpr ⟨Bool.false_ne_true, herr⟩)]
                rfl

/-- The overrides of the environment are calls of `applyKey`. -/
theorem overrideKeys_cfg (getenv : Bytes → Option Bytes) (cfg : Config)
    (table : List (ConfigKey × Bytes)) :
    (overrideKeys getenv cfg table).cfg = afterCalls cfg (envCalls getenv cfg table) := by
  induction table generalizing cfg with
  | nil => rfl
  | cons entry rest ih =>
      rw [overrideKeys, envCalls]
      cases getenv entry.2 with
      | none => exact ih cfg
      | some v =>
          dsimp only
          rw [afterCalls_cons]
          cases hok : (applyKey cfg entry.1.name v).ok with
          | true =>
              rw [if_pos rfl, if_pos rfl]
              exact ih _
          | false =>
              rw [if_neg Bool.false_ne_true, if_neg Bool.false_ne_true]
              rfl

/-- The calls of a start: those of the file, when there is one, and those of the environment,
unless the file was refused. -/
def startCalls (path : Bytes) (file : Option Bytes) (getenv : Bytes → Option Bytes)
    (cfg : Config) : List Call :=
  match file with
  | none => envCalls getenv cfg kEnvKeys
  | some contents =>
      let loaded := loadConfig path (some contents) cfg (some [])
      fileCalls cfg (getLines contents) ++
        if loaded.ok then envCalls getenv loaded.cfg kEnvKeys else []

/-- The settings that the program starts with are those after the calls. -/
theorem afterCalls_startCalls (path contents : Bytes) (getenv : Bytes → Option Bytes)
    (cfg : Config) :
    let loaded := loadConfig path (some contents) cfg (some [])
    afterCalls cfg (startCalls path (some contents) getenv cfg) =
      if loaded.ok then (applyEnvOverrides getenv loaded.cfg).cfg else loaded.cfg := by
  have hfile : (loadConfig path (some contents) cfg (some [])).cfg =
      afterCalls cfg (fileCalls cfg (getLines contents)) := loadLines_cfg _ _ _ _ _
  simp only [startCalls, afterCalls_append, ← hfile]
  split_ifs
  · exact (overrideKeys_cfg getenv _ kEnvKeys).symm
  · rfl

/-- **Any calls** keep the limits, whether they fail or not. -/
theorem AllAllowed.afterCalls {cfg : Config} (h : AllAllowed cfg) (calls : List Call) :
    AllAllowed (afterCalls cfg calls) := by
  induction calls generalizing cfg with
  | nil => exact h
  | cons call rest ih => exact ih (h.applyKey call.1 call.2)

/-- **The limits hold throughout**: from the defaults, after every single call that a start of
the program makes, and a call that fails has changed nothing. -/
theorem withinLimits_after_calls (detected : UInt32) (random : Fin 4 → UInt8) (path : Bytes)
    (file : Option Bytes) (getenv : Bytes → Option Bytes) (made : Nat) :
    let start := defaultConfig detected random
    let calls := startCalls path file getenv start
    SettingsWithinLimits (afterCalls start (calls.take made)) ∧
      ∀ cfg key value, (applyKey cfg key value).ok = false → (applyKey cfg key value).cfg = cfg :=
  ⟨((allAllowed_default detected random).afterCalls _).withinLimits,
    fun _ _ _ => applyKey_of_not_ok⟩

end Nshmqtt
