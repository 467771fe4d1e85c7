import Nshmqtt.ExpositionText
import Nshmqtt.ReloadableValues
import Nshmqtt.ResponseDelivery
import Nshmqtt.SeriesNames

/-!
# The metrics are read back

A scraper reads the texts of `metrics.cpp` with a reader of the Prometheus format that knows
nothing of the service.  It gets one family for each counter and gauge, with the values of that
moment, and one untyped series for each stored name that keeps its series.  One value has a text
that is no float of the format: a NaN with a sign, which a client stores by sending `-nan`.  A
single one of them makes the whole text malformed.

* `shows_service`, `shows_state` : the two halves show these families;
* `spoils_state` : unless a value is a negative NaN;
* `scrape_read_back` : so does the answer to `GET /metrics`, read as HTTP first;
* `textfile_readable_iff` : the two halves in one file are well formed exactly when they have no
  name in common and no such value is shown.
-/

namespace Nshmqtt

open ByteStrings DecimalText ExpositionText HttpReader

def gaugeFamily (name : Bytes) (value : Double) : Family :=
  ⟨name, none, some .gauge, [⟨[], formatDouble value⟩]⟩

def counterFamily (name : Bytes) (value : UInt64) : Family :=
  ⟨name, none, some .counter, [⟨[], decimalText value.toNat⟩]⟩

def labelledFamily (name label : Bytes) (series : List (Bytes × UInt64)) : Family :=
  ⟨name, none, some .counter,
    series.map fun entry => ⟨[(label, entry.1)], decimalText entry.2.toNat⟩⟩

/-- What a scraper is to get from the service half. -/
def serviceFamilies (pre : Bytes) (metrics : Metrics) (status : ServiceStatus) (mqttPoolSize : Int)
    (stateEntries metricNameCollisions : Nat) : List Family :=
  [⟨pre ++ ascii "up", none, some .gauge, [⟨[], ascii "1"⟩]⟩,
   gaugeFamily (pre ++ ascii "uptime_seconds") status.uptimeSeconds,
   gaugeFamily (pre ++ ascii "mqtt_connected") (boolDouble status.mqttConnected),
   gaugeFamily (pre ++ ascii "mqtt_connections_active") (Binary64.ofInt status.mqttConnectionsActive),
   gaugeFamily (pre ++ ascii "mqtt_pool_size") (Binary64.ofInt mqttPoolSize),
   gaugeFamily (pre ++ ascii "mqtt_publish_queue_depth") (Binary64.ofInt status.mqttQueueDepth),
   gaugeFamily (pre ++ ascii "state_entries") (Binary64.ofInt stateEntries),
   gaugeFamily (pre ++ ascii "metric_name_collisions") (Binary64.ofInt metricNameCollisions),
   labelledFamily (pre ++ ascii "http_requests_total") (ascii "category")
     [(ascii "event", metrics.eventRequestsTotal), (ascii "metric", metrics.metricRequestsTotal),
      (ascii "health", metrics.healthRequestsTotal), (ascii "metrics", metrics.metricsRequestsTotal),
      (ascii "other", metrics.otherRequestsTotal)],
   labelledFamily (pre ++ ascii "http_responses_total") (ascii "class")
     [(ascii "2xx", metrics.responses2xx), (ascii "4xx", metrics.responses4xx),
      (ascii "5xx", metrics.responses5xx)],
   labelledFamily (pre ++ ascii "mqtt_publish_total") (ascii "outcome")
     [(ascii "ok", metrics.mqttPublishOkTotal), (ascii "failed", metrics.mqttPublishFailedTotal),
      (ascii "timeout", metrics.mqttPublishTimeoutTotal)],
   counterFamily (pre ++ ascii "mqtt_queue_full_total") metrics.mqttQueueFullTotal,
   counterFamily (pre ++ ascii "mqtt_reconnects_total") metrics.mqttReconnectsTotal,
   counterFamily (pre ++ ascii "mqtt_messages_received_total") metrics.mqttMessagesReceivedTotal,
   counterFamily (pre ++ ascii "mqtt_messages_dropped_total") metrics.mqttMessagesDroppedTotal,
   gaugeFamily (pre ++ ascii "webhook_queue_depth") (Binary64.ofInt status.webhookQueueDepth),
   counterFamily (pre ++ ascii "webhook_delivered_total") metrics.webhookDeliveredTotal,
   counterFamily (pre ++ ascii "webhook_failed_total") metrics.webhookFailedTotal,
   counterFamily (pre ++ ascii "webhook_queue_full_total") metrics.webhookQueueFullTotal]

/-- The suffixes of the families, each once. -/
def familySuffixes : List Bytes :=
  [ascii "up", ascii "uptime_seconds", ascii "mqtt_connected", ascii "mqtt_connections_active",
   ascii "mqtt_pool_size", ascii "mqtt_publish_queue_depth", ascii "state_entries",
   ascii "metric_name_collisions", ascii "http_requests_total", ascii "http_responses_total",
   ascii "mqtt_publish_total", ascii "mqtt_queue_full_total", ascii "mqtt_reconnects_total",
   ascii "mqtt_messages_received_total", ascii "mqtt_messages_dropped_total",
   ascii "webhook_queue_depth", ascii "webhook_delivered_total", ascii "webhook_failed_total",
   ascii "webhook_queue_full_total"]

/-- Nothing, or the start of a metric name. -/
structure NamePrefix (pre : Bytes) : Prop where
  start : ∀ c ∈ pre.head?, startsName c = true
  bytes : ∀ c ∈ pre, inName c = true

/-- The bytes that the two sides call name bytes. -/
theorem inName_spec (c : UInt8) : (isNameByte c = true → inName c = true) ∧
    (isNameByte c = true → isdigit c = false → startsName c = true) ∧
    (startsName c = true → c ≠ hash) ∧ (inName c = true → endsName c = false) :=
  forall_byte (p := fun c => (isNameByte c = true → inName c = true) ∧
    (isNameByte c = true → isdigit c = false → startsName c = true) ∧
    (startsName c = true → c ≠ hash) ∧ (inName c = true → endsName c = false))
    (by decide +kernel) c

/-- A prefix that can start a name is plain. -/
theorem NamePrefix.plainName {pre : Bytes} (h : NamePrefix pre) : PlainName pre where
  start := by
    intro hhash
    exact (inName_spec hash).2.2.1 (h.start hash hhash) rfl
  bytes := fun c hc => (inName_spec c).2.2.2 (h.bytes c hc)

/-- A metric name can start another one. -/
theorem IsMetricName.namePrefix {name : Bytes} (h : IsMetricName name) : NamePrefix name where
  start := by
    intro c hc
    exact (inName_spec c).2.1 (h.bytes c (List.mem_of_mem_head? hc)) (h.no_digit c hc)
  bytes := fun c hc => (inName_spec c).1 (h.bytes c hc)

/-- A prefix in front of the bytes of a name. -/
theorem NamePrefix.append {pre body : Bytes} (hpre : NamePrefix pre) (hbody : IsBody body)
    (hnonempty : pre ++ body ≠ []) : IsName (pre ++ body) where
  nonempty := hnonempty
  start := by
    intro c hc
    cases pre with
    | nil =>
        have hmem : c ∈ body := List.mem_of_mem_head? hc
        exact (inName_spec c).2.1 (hbody.1 c hmem) (hbody.2 c hc)
    | cons first rest => exact hpre.start c hc
  bytes := List.forall_mem_append.mpr
    ⟨hpre.bytes, fun c hc => (inName_spec c).1 (hbody.1 c hc)⟩

/-- **The text of a double** is a float, except for a NaN with a sign. -/
theorem isSome_parseFloat_formatDouble (v : Double) :
    (parseFloat (formatDouble v)).isSome = true ↔ HasFloat v :=
  isSome_parseFloat_formatGeneral (Nat.succ_pos 8) v fun hnan hinf hzero =>
    shownDecimal_le_max (Nat.pos_of_ne_zero hzero) (Binary64.quanta_le hnan hinf)

/-- The text of a counter is a float. -/
theorem isSome_parseFloat_counter (value : UInt64) :
    (parseFloat (decimalText value.toNat)).isSome = true :=
  parseFloat_decimalText value.toNat_lt

/-- What is converted from an integer is no NaN. -/
theorem hasFloat_ofInt (n : Int) : HasFloat (Binary64.ofInt n) := by
  apply hasFloat_of_not_nan
  unfold Binary64.ofInt Binary64.ofRatio
  split_ifs with hlarge
  · cases decide (n < 0) <;> decide
  · exact (Binary64.isNan_ofCode _ (Nat.not_le.mp hlarge)).1

theorem hasFloat_boolDouble (b : Bool) : HasFloat (boolDouble b) := by
  cases b <;> exact hasFloat_ofInt _

/-- The help line, in the parts that are read. -/
theorem textLine_help (name help : Bytes) : textLine [ascii "# HELP ", name, ascii " ", help] =
    ascii "# HELP " ++ (name ++ blank :: help) ++ [newline] := by
  simp [textLine, ascii]

theorem textLine_value (name value : Bytes) : textLine [name, ascii " ", value] =
    name ++ blank :: value ++ [newline] := by
  simp [textLine, ascii]

/-- A gauge is read back. -/
theorem shows_gauge {name help : Bytes} (hname : IsName name) (hhelp : newline ∉ help)
    {value : Double} (hvalue : HasFloat value) :
    Shows (writeGauge name help value) [gaugeFamily name value] := by
  have hfloat := (isSome_parseFloat_formatDouble value).mpr hvalue
  have htype : textLine [ascii "# TYPE ", name, ascii " gauge"] =
      ascii "# TYPE " ++ (name ++ blank :: Kind.gauge.text) ++ [newline] := by
    simp [textLine, ascii, Kind.text]
  rw [writeGauge, textLine_help, htype, textLine_value]
  exact shows_family hname hhelp .gauge (reads_value hname hfloat)

theorem textLine_counter (name : Bytes) : textLine [ascii "# TYPE ", name, ascii " counter"] =
    ascii "# TYPE " ++ (name ++ blank :: Kind.counter.text) ++ [newline] := by
  simp [textLine, ascii, Kind.text]

/-- A counter is read back. -/
theorem shows_counter {name help : Bytes} (hname : IsName name) (hhelp : newline ∉ help)
    (value : UInt64) : Shows (writeCounter name help [] value) [counterFamily name value] := by
  have hvalue : textLine [name, if ([] : Bytes) = [] then [] else [openBrace] ++ [] ++ [closeBrace],
      ascii " ", decimalText value.toNat] = name ++ blank :: decimalText value.toNat ++ [newline] := by
    simp [textLine, ascii]
  rw [writeCounter, textLine_help, textLine_counter, hvalue]
  exact shows_family hname hhelp .counter
    (reads_value hname (isSome_parseFloat_counter value))

/-- A byte that a label value may hold as it is. -/
def plainLabelByte (c : UInt8) : Bool := c != quote && c != backslash && c != newline

theorem shows_labelled {name help label : Bytes} (hname : IsName name) (hhelp : newline ∉ help)
    (hlabel : IsName label) {series : List (Bytes × UInt64)}
    (hseries : ∀ entry ∈ series, entry.1.all plainLabelByte = true) :
    Shows (writeLabelled name help label series) [labelledFamily name label series] := by
  have hlines : Reads (series.map fun entry => textLine [name, [openBrace], label, ascii "=\"",
      entry.1, ascii "\"\x7d ", decimalText entry.2.toNat]).flatten
        ((series.map fun entry => ⟨[(label, entry.1)], decimalText entry.2.toNat⟩).map
          (Line.sample name)) := by
    induction series with
    | nil => exact reads_nil
    | cons entry rest ih =>
        rw [List.forall_mem_cons] at hseries
        have htext : textLine [name, [openBrace], label, ascii "=\"", entry.1, ascii "\"\x7d ",
            decimalText entry.2.toNat] = name ++ openBrace :: (label ++ ([equals, quote] ++
              (entry.1 ++ quote :: closeBrace :: blank :: decimalText entry.2.toNat))) ++
                [newline] := by
          simp [textLine, ascii]
        have hplain : ∀ c ∈ entry.1, c ≠ quote ∧ c ≠ backslash ∧ c ≠ newline := by
          simpa [plainLabelByte, and_assoc] using hseries.1
        rw [List.map_cons, List.flatten_cons, htext]
        exact (reads_labelled hname hlabel hplain (isSome_parseFloat_counter entry.2)).append
          (ih hseries.2)
  rw [writeLabelled, textLine_help, textLine_counter]
  exact shows_family hname hhelp .counter hlines

/-- The first family, written by hand in the source. -/
theorem shows_up {pre : Bytes} (hname : IsName (pre ++ ascii "up")) :
    Shows (textLine [ascii "# HELP ", pre,
        ascii "up 1 if this nshmqtt process is running (always 1 if you can scrape it)"] ++
      textLine [ascii "# TYPE ", pre, ascii "up gauge"] ++ textLine [pre, ascii "up 1"])
      [⟨pre ++ ascii "up", none, some .gauge, [⟨[], ascii "1"⟩]⟩] := by
  have hvalue : Reads (pre ++ ascii "up" ++ blank :: ascii "1" ++ [newline])
      [.sample (pre ++ ascii "up") ⟨[], ascii "1"⟩] :=
    reads_value hname (by decide +kernel)
  have hfamily := @shows_family _ hname
    (ascii "1 if this nshmqtt process is running (always 1 if you can scrape it)") (by decide +kernel)
    .gauge [⟨[], ascii "1"⟩] _ hvalue
  have htexts : ascii "up 1 if this nshmqtt process is running (always 1 if you can scrape it)" =
        ascii "up" ++ blank ::
          ascii "1 if this nshmqtt process is running (always 1 if you can scrape it)" ∧
      ascii "up gauge" = ascii "up" ++ blank :: Kind.gauge.text ∧
      ascii "up 1" = ascii "up" ++ blank :: ascii "1" := by
    decide +kernel
  obtain ⟨hhelp, htype, hup⟩ := htexts
  have hsame : textLine [ascii "# HELP ", pre,
        ascii "up 1 if this nshmqtt process is running (always 1 if you can scrape it)"] ++
      textLine [ascii "# TYPE ", pre, ascii "up gauge"] ++ textLine [pre, ascii "up 1"] =
      ascii "# HELP " ++ (pre ++ ascii "up" ++ blank ::
        ascii "1 if this nshmqtt process is running (always 1 if you can scrape it)") ++ [newline] ++
      (ascii "# TYPE " ++ (pre ++ ascii "up" ++ blank :: Kind.gauge.text) ++ [newline]) ++
      (pre ++ ascii "up" ++ blank :: ascii "1" ++ [newline]) := by
    rw [hhelp, htype, hup]
    simp only [textLine, List.flatten_cons, List.flatten_nil, List.append_nil, List.append_assoc]
  rw [hsame]
  exact hfamily

variable {pre : Bytes}

/-- A prefix and a suffix are a name. -/
theorem NamePrefix.suffix (hpre : NamePrefix pre) {suffix : Bytes}
    (h : suffix ≠ [] ∧ suffix.all isNameByte = true ∧
      ∀ c ∈ suffix.head?, isdigit c = false) : IsName (pre ++ suffix) :=
  hpre.append ⟨List.all_eq_true.mp h.2.1, h.2.2⟩ fun hnil => h.1 (List.append_eq_nil_iff.mp hnil).2

/-- **The service half** shows its counters and gauges. -/
theorem shows_service (hpre : NamePrefix pre) (metrics : Metrics) {status : ServiceStatus}
    (hstatus : HasFloat status.uptimeSeconds) (mqttPoolSize : Int)
    (stateEntries metricNameCollisions : Nat) :
    Shows (renderPrometheusServiceMetrics pre metrics status mqttPoolSize stateEntries
        metricNameCollisions)
      (serviceFamilies pre metrics status mqttPoolSize stateEntries metricNameCollisions) := by
  have hnames : ∀ suffix ∈ familySuffixes, suffix ≠ [] ∧ suffix.all isNameByte = true ∧
      ∀ c ∈ suffix.head?, isdigit c = false := by
    decide +kernel
  have hname : ∀ suffix ∈ familySuffixes, IsName (pre ++ suffix) :=
    fun suffix hmem => hpre.suffix (hnames suffix hmem)
  simp only [familySuffixes, List.forall_mem_cons] at hname
  obtain ⟨hup, huptime, hconnected, hactive, hpool, hdepth, hentries, hcollisions, hrequests,
    hresponses, hpublish, hfull, hreconnects, hreceived, hdropped, hwebhook, hdelivered, hfailed,
    hwebhookFull, -⟩ := hname
  have hlabel : IsName (ascii "category") ∧ IsName (ascii "class") ∧ IsName (ascii "outcome") := by
    have hall : ∀ label ∈ [ascii "category", ascii "class", ascii "outcome"], label ≠ [] ∧
        (∀ c ∈ label.head?, startsName c = true) ∧ ∀ c ∈ label, inName c = true := by
      decide +kernel
    simp only [List.forall_mem_cons] at hall
    obtain ⟨hcategory, hclass, houtcome, -⟩ := hall
    exact ⟨⟨hcategory.1, hcategory.2.1, hcategory.2.2⟩, ⟨hclass.1, hclass.2.1, hclass.2.2⟩,
      ⟨houtcome.1, houtcome.2.1, houtcome.2.2⟩⟩
  obtain ⟨hcategory, hclass, houtcome⟩ := hlabel
  unfold renderPrometheusServiceMetrics
  refine Shows.cast (shows_up hup
    |>.append (shows_gauge huptime (by decide +kernel) hstatus)
    |>.append (shows_gauge hconnected (by decide +kernel) (hasFloat_boolDouble _))
    |>.append (shows_gauge hactive (by decide +kernel) (hasFloat_ofInt _))
    |>.append (shows_gauge hpool (by decide +kernel) (hasFloat_ofInt _))
    |>.append (shows_gauge hdepth (by decide +kernel) (hasFloat_ofInt _))
    |>.append (shows_gauge hentries (by decide +kernel) (hasFloat_ofInt _))
    |>.append (shows_gauge hcollisions (by decide +kernel) (hasFloat_ofInt _))
    |>.append (shows_labelled hrequests (by decide +kernel) hcategory
      (by simp only [List.forall_mem_cons]; decide +kernel))
    |>.append (shows_labelled hresponses (by decide +kernel) hclass
      (by simp only [List.forall_mem_cons]; decide +kernel))
    |>.append (shows_labelled hpublish (by decide +kernel) houtcome
      (by simp only [List.forall_mem_cons]; decide +kernel))
    |>.append (shows_counter hfull (by decide +kernel) _)
    |>.append (shows_counter hreconnects (by decide +kernel) _)
    |>.append (shows_counter hreceived (by decide +kernel) _)
    |>.append (shows_counter hdropped (by decide +kernel) _)
    |>.append (shows_gauge hwebhook (by decide +kernel) (hasFloat_ofInt _))
    |>.append (shows_counter hdelivered (by decide +kernel) _)
    |>.append (shows_counter hfailed (by decide +kernel) _)
    |>.append (shows_counter hwebhookFull (by decide +kernel) _)) ?_
  simp only [serviceFamilies, List.cons_append, List.nil_append]

/-- The names of the service families. -/
theorem names_serviceFamilies (pre : Bytes) (metrics : Metrics) (status : ServiceStatus)
    (mqttPoolSize : Int) (stateEntries metricNameCollisions : Nat) :
    names (serviceFamilies pre metrics status mqttPoolSize stateEntries metricNameCollisions) =
      familySuffixes.map (pre ++ ·) :=
  rfl

theorem nodup_serviceFamilies (pre : Bytes) : (familySuffixes.map (pre ++ ·)).Nodup :=
  List.Nodup.map (fun _ _ h => List.append_cancel_left h) (by decide +kernel)

theorem sound_gaugeFamily (name : Bytes) (value : Double) : (gaugeFamily name value).Sound :=
  ⟨List.cons_ne_nil _ _, List.nodup_singleton _⟩

theorem sound_counterFamily (name : Bytes) (value : UInt64) : (counterFamily name value).Sound :=
  ⟨List.cons_ne_nil _ _, List.nodup_singleton _⟩

/-- Labels that differ make series that differ. -/
theorem sound_labelledFamily (name label : Bytes) {series : List (Bytes × UInt64)}
    (hnonempty : series ≠ []) (hnodup : (series.map Prod.fst).Nodup) :
    (labelledFamily name label series).Sound where
  shows := fun hnil => hnonempty (List.map_eq_nil_iff.mp hnil)
  labels := by
    have hlabels : (labelledFamily name label series).samples.map Sample.labels =
        (series.map Prod.fst).map fun text => [(label, text)] := by
      simp [labelledFamily]
    rw [hlabels]
    exact hnodup.map fun text text' h => congrArg Prod.snd (List.head_eq_of_cons_eq h)

theorem sound_serviceFamilies (pre : Bytes) (metrics : Metrics) (status : ServiceStatus)
    (mqttPoolSize : Int) (stateEntries metricNameCollisions : Nat) :
    ∀ f ∈ serviceFamilies pre metrics status mqttPoolSize stateEntries metricNameCollisions,
      f.Sound := by
  simp only [serviceFamilies, List.forall_mem_cons, sound_gaugeFamily, sound_counterFamily, true_and]
  refine ⟨⟨List.cons_ne_nil _ _, List.nodup_singleton _⟩, ?_, ?_, ?_, List.forall_mem_nil _⟩
  · exact sound_labelledFamily _ _ (List.cons_ne_nil _ _)
      (by simp only [List.map_cons, List.map_nil]; decide)
  · exact sound_labelledFamily _ _ (List.cons_ne_nil _ _)
      (by simp only [List.map_cons, List.map_nil]; decide)
  · exact sound_labelledFamily _ _ (List.cons_ne_nil _ _)
      (by simp only [List.map_cons, List.map_nil]; decide)

/-- What a scraper is to get from the state half. -/
def stateFamilies (normalizedMetrics : List (Bytes × Double)) : List Family :=
  normalizedMetrics.map fun m => ⟨m.1, none, none, [⟨[], formatDouble m.2⟩]⟩

/-- The names of the state families are those of the stored entries. -/
theorem names_stateFamilies (normalizedMetrics : List (Bytes × Double)) :
    names (stateFamilies normalizedMetrics) = normalizedMetrics.map Prod.fst := by
  simp [names, stateFamilies]

/-- Each stored entry has one series. -/
theorem sound_stateFamilies (normalizedMetrics : List (Bytes × Double)) :
    ∀ f ∈ stateFamilies normalizedMetrics, f.Sound := by
  intro f hf
  obtain ⟨m, -, rfl⟩ := List.mem_map.mp hf
  exact ⟨List.cons_ne_nil _ _, List.nodup_singleton _⟩

/-- The comment in front shows nothing. -/
theorem shows_stateComment : Shows (textLine
    [ascii "# Current value of each stored metric below (untyped; one series per name)"]) [] := by
  rw [textLine, List.flatten_singleton]
  exact shows_comment (by decide +kernel) (by decide +kernel)

section

variable {normalizedMetrics : List (Bytes × Double)}
  (hnames : ∀ name ∈ normalizedMetrics.map Prod.fst, IsName name)

include hnames

/-- **The state half** shows each of its series. -/
theorem shows_state (hvalues : ∀ m ∈ normalizedMetrics, HasFloat m.2) :
    Shows (renderPrometheusStateMetrics normalizedMetrics) (stateFamilies normalizedMetrics) := by
  have hlines : Shows (normalizedMetrics.map fun m =>
      textLine [m.1, ascii " ", formatDouble m.2]).flatten (stateFamilies normalizedMetrics) := by
    induction normalizedMetrics with
    | nil => exact shows_nil
    | cons m rest ih =>
        rw [List.map_cons, List.forall_mem_cons] at hnames
        rw [List.forall_mem_cons] at hvalues
        have hfloat := (isSome_parseFloat_formatDouble m.2).mpr hvalues.1
        rw [List.map_cons, List.flatten_cons, textLine_value]
        exact (shows_value hnames.1 hfloat).append (ih hnames.2 hvalues.2)
  exact shows_stateComment.append hlines

/-- **One negative NaN** makes the state half malformed. -/
theorem spoils_state (hvalues : ¬ ∀ m ∈ normalizedMetrics, HasFloat m.2) :
    Spoils (renderPrometheusStateMetrics normalizedMetrics) := by
  have hlines : Spoils (normalizedMetrics.map fun m =>
      textLine [m.1, ascii " ", formatDouble m.2]).flatten := by
    induction normalizedMetrics with
    | nil => exact absurd (List.forall_mem_nil _) hvalues
    | cons m rest ih =>
        rw [List.map_cons, List.forall_mem_cons] at hnames
        rw [List.map_cons, List.flatten_cons, textLine_value]
        by_cases hfirst : HasFloat m.2
        · have hfloat := (isSome_parseFloat_formatDouble m.2).mpr hfirst
          rw [List.forall_mem_cons, not_and] at hvalues
          exact (reads_value hnames.1 hfloat).spoils (ih hnames.2 (hvalues hfirst))
        · have hbad := mt (isSome_parseFloat_formatDouble m.2).mp hfirst
          exact (spoils_value hnames.1 (newline_not_mem_formatDouble m.2) hbad).append _
  exact shows_stateComment.spoils hlines

end

/-- The entries that survive have different names. -/
theorem nodup_normalizeAll (pre : Bytes) (items : List (Bytes × Double)) (topicPrefix : Bytes) :
    ((normalizeAll pre items topicPrefix).metrics.map Prod.fst).Nodup := by
  have hkeys := FirstClaims.nodup_keys
    (fun item : Bytes × Double => normalizeMetricName pre item.1 topicPrefix) [] items
  rw [normalizeAll, normalizeFrom_eq, List.map_map]
  exact hkeys

/-- The prefixes are those of metric names, and no stored name ends up without a name. -/
structure Nameable (cfg : Config) (store : StateStore) : Prop where
  service : NamePrefix cfg.prometheusPrefix
  state : NamePrefix cfg.prometheusMqttStatePrefix
  stored : ∀ name ∈ store.keys,
    normalizeMetricName cfg.prometheusMqttStatePrefix name cfg.stateTopicPrefix ≠ []

/-- Behind a prefix every stored name has a name. -/
theorem nameable_of_prefixes {cfg : Config} (hservice : NamePrefix cfg.prometheusPrefix)
    (hstate : NamePrefix cfg.prometheusMqttStatePrefix)
    (hnonempty : cfg.prometheusMqttStatePrefix ≠ []) (store : StateStore) : Nameable cfg store where
  service := hservice
  state := hstate
  stored := by
    intro name _ hnil
    rw [normalizeMetricName_append] at hnil
    exact hnonempty (List.append_eq_nil_iff.mp hnil).1

/-- The default prefixes can start a name. -/
theorem nameable_defaults (store : StateStore) : Nameable {} store :=
  nameable_of_prefixes isMetricName_defaults.1.namePrefix isMetricName_defaults.2.namePrefix
    isMetricName_defaults.2.nonempty store

/-- No value that is shown is a negative NaN; what is stored under a name that lost its series is
not shown. -/
def FloatsShown (cfg : Config) (store : StateStore) : Prop :=
  ∀ m ∈ (normalizedState cfg store).metrics, HasFloat m.2

instance (cfg : Config) (store : StateStore) : Decidable (FloatsShown cfg store) :=
  inferInstanceAs (Decidable (∀ m ∈ (normalizedState cfg store).metrics, HasFloat m.2))

variable {cfg : Config} {env : Surroundings} {s : ServerState}

theorem Nameable.isName {store : StateStore} (h : Nameable cfg store) :
    ∀ name ∈ (normalizedState cfg store).metrics.map Prod.fst, IsName name := by
  intro name hname
  rw [normalizedState, normalizeAll, mem_names_normalizeFrom] at hname
  obtain ⟨-, item, hitem, rfl⟩ := hname
  have hstored := h.stored item.1 (mem_keys_iff_exists.mpr ⟨item.2, hitem⟩)
  rw [normalizeMetricName_append] at hstored ⊢
  exact h.state.append (isBody_normalizeMetricName _ _) hstored

/-- The families of `GET /metrics` in a state. -/
def serviceShown (cfg : Config) (env : Surroundings) (s : ServerState) : List Family :=
  serviceFamilies cfg.prometheusPrefix s.metrics env.status cfg.mqttPoolSize s.store.size
    (normalizedState cfg s.store).collisions.length

/-- The families of `GET /metrics-state` in a state. -/
def stateShown (cfg : Config) (s : ServerState) : List Family :=
  stateFamilies (normalizedState cfg s.store).metrics

/-- The reader gets these families, up to the help texts. -/
def ReadsAs (text : Bytes) (shown : List Family) : Prop :=
  ∃ families, readText text = some families ∧ families.map Family.withoutHelp = shown

/-- **The service half** is read back to its families. -/
theorem readsAs_serviceBody (h : NamePrefix cfg.prometheusPrefix)
    (huptime : HasFloat env.status.uptimeSeconds) (s : ServerState) :
    ReadsAs (serviceBody cfg env s) (serviceShown cfg env s) :=
  readText_of_shows (shows_service h _ huptime _ _ _) (sound_serviceFamilies _ _ _ _ _ _)
    (nodup_serviceFamilies cfg.prometheusPrefix)

theorem nodup_stateShown (cfg : Config) (s : ServerState) : (names (stateShown cfg s)).Nodup := by
  rw [stateShown, names_stateFamilies]
  exact nodup_normalizeAll _ _ _

/-- The state half is read back exactly when all its values are floats. -/
theorem readsAs_metricsStateBody_iff (h : Nameable cfg s.store) :
    ReadsAs (metricsStateBody cfg s.store) (stateShown cfg s) ↔ FloatsShown cfg s.store := by
  constructor
  · intro hread
    by_contra hvalues
    obtain ⟨families, hfamilies, -⟩ := hread
    have hnone : readText (metricsStateBody cfg s.store) = none :=
      (spoils_state h.isName hvalues).readText
    rw [hnone] at hfamilies
    cases hfamilies
  · intro hvalues
    exact readText_of_shows (shows_state h.isName hvalues) (sound_stateFamilies _)
      (nodup_stateShown cfg s)

/-- A client reads one response with status 200 and these families in its body. -/
def Scrapes (bytes : Bytes) (shown : List Family) : Prop :=
  ∃ response, readResponse false bytes = some (response, []) ∧ response.status = 200 ∧
    ReadsAs response.body shown

/-- A response with a body of metrics scrapes as its body is read. -/
theorem scrapes_iff (body : Bytes) (shown : List Family) :
    Scrapes (buildHttpResponse { format := .prometheus, body := body } true) shown ↔
      ReadsAs body shown := by
  have hanswer : Answerable { format := .prometheus, body := body } := .ok rfl rfl
  have hread := readResponse_text (hanswer.writable true) []
  rw [List.append_nil, ← buildHttpResponse_eq, Bool.not_true] at hread
  constructor
  · intro h
    obtain ⟨response, hresponse, -, hshown⟩ := h
    rw [hread] at hresponse
    cases hresponse
    exact hshown
  · intro h
    exact ⟨_, hread, rfl, h⟩

/-- **A scrape gives the counters and the store**: whatever else is in the request, the bytes sent
for a `GET` of one of the two metrics paths are read back, as HTTP and then as metrics, to the
families of that moment, this request counted; those of the store exactly when no negative NaN is
among the values. -/
theorem scrape_read_back {socket : List Recv} {req : HttpRequest}
    (hreceive : receive cfg socket = .request req) (hget : req.method = ascii "GET")
    (hhttp : cfg.prometheusHttp = true) (hnames : Nameable cfg s.store)
    (huptime : HasFloat env.status.uptimeSeconds) :
    (req.path = ascii "/metrics" → ∃ bytes, (handleConnection cfg env s socket).1 = some bytes ∧
      Scrapes bytes (serviceShown cfg env (s.recordRequest req.path))) ∧
    (req.path = ascii "/metrics-state" → isAuthorized cfg req = true →
      ∃ bytes, (handleConnection cfg env s socket).1 = some bytes ∧
        (Scrapes bytes (stateShown cfg s) ↔ FloatsShown cfg s.store)) := by
  have hread : isRead req = true := by
    rw [isRead, hget]
    rfl
  have hbody : (req.method != ascii "HEAD") = true := by
    rw [hget]
    rfl
  constructor
  · intro hpath
    have hopen : needsAuth (ascii "/metrics") = false ∧ isEventPath (ascii "/metrics") = false ∧
        isMetricPath (ascii "/metrics") = false := by
      decide
    obtain ⟨hauth, hevent, hmetric⟩ := hopen
    refine ⟨_, ?_, (scrapes_iff _ _).mpr (readsAs_serviceBody hnames.service huptime
      (s.recordRequest req.path))⟩
    simp only [handleConnection, hreceive, route, hauth, hevent, hmetric, hread, hhttp, hbody, hpath,
      Bool.false_and, Bool.false_eq_true, if_false, true_or, if_true, Bool.not_true]
  · intro hpath hauthorized
    have hother : isEventPath (ascii "/metrics-state") = false ∧
        isMetricPath (ascii "/metrics-state") = false ∧
        ascii "/metrics-state" ≠ ascii "/metrics" := by
      decide
    obtain ⟨hevent, hmetric, hne⟩ := hother
    refine ⟨_, ?_, (scrapes_iff (metricsStateBody cfg s.store) _).trans
      (readsAs_metricsStateBody_iff hnames)⟩
    simp only [handleConnection, hreceive, route, hauthorized, hevent, hmetric, hread, hhttp, hbody,
      hpath, hne, Bool.and_false, Bool.false_eq_true, if_false, or_true, if_true, Bool.not_true,
      ServerState.recordRequest]

/-- The first scrapes of a server that has served nothing else; that of the counters counts
itself. -/
theorem scrape_read_back_first :
    (∃ bytes, (handleConnection {} quietSurroundings (oneEntry (ascii "a") 1)
        [.data (ascii "GET /metrics HTTP/1.1\r\n\r\n")]).1 = some bytes ∧
      Scrapes bytes (serviceShown {} quietSurroundings
        ((oneEntry (ascii "a") 1).recordRequest (ascii "/metrics")))) ∧
    ∃ bytes, (handleConnection {} quietSurroundings (oneEntry (ascii "a") 1)
        [.data (ascii "GET /metrics-state HTTP/1.1\r\n\r\n")]).1 = some bytes ∧
      Scrapes bytes (stateShown {} (oneEntry (ascii "a") 1)) := by
  have hreceive : ∀ path ∈ [ascii "/metrics", ascii "/metrics-state"],
      receive {} [.data (ascii "GET " ++ path ++ ascii " HTTP/1.1\r\n\r\n")] =
        .request (scrape path []) := by
    decide +kernel
  simp only [List.forall_mem_cons] at hreceive
  have huptime : HasFloat quietSurroundings.status.uptimeSeconds := by decide +kernel
  obtain ⟨bytes, hbytes, hscrapes⟩ :=
    (scrape_read_back hreceive.2.1 rfl rfl (nameable_defaults _)
      huptime).2 rfl rfl
  exact ⟨(scrape_read_back hreceive.1 rfl rfl (nameable_defaults _) huptime).1 rfl, bytes, hbytes,
    hscrapes.mpr (by decide +kernel)⟩

/-- The families of the service half have the names of its text. -/
theorem mem_names_serviceShown (h : NamePrefix cfg.prometheusPrefix) (name : Bytes) :
    name ∈ names (serviceShown cfg env s) ↔ name ∈ seriesNames (serviceBody cfg env s) := by
  have hsame : (∀ suffix ∈ familySuffixes, suffix ∈ serviceSuffixes) ∧
      ∀ suffix ∈ serviceSuffixes, suffix ∈ familySuffixes := by
    decide +kernel
  rw [seriesNames_serviceBody h.plainName, serviceShown, names_serviceFamilies, List.mem_map,
    List.mem_map]
  constructor
  · intro hmem
    obtain ⟨suffix, hsuffix, heq⟩ := hmem
    exact ⟨suffix, hsame.1 suffix hsuffix, heq⟩
  · intro hmem
    obtain ⟨suffix, hsuffix, heq⟩ := hmem
    exact ⟨suffix, hsame.2 suffix hsuffix, heq⟩

theorem mem_names_stateShown (h : Nameable cfg s.store) (name : Bytes) :
    name ∈ names (stateShown cfg s) ↔ name ∈ seriesNames (metricsStateBody cfg s.store) := by
  rw [stateShown, names_stateFamilies, metricsStateBody, ← normalizedState,
    (writes_state fun name hname => ?_).seriesNames]
  have hname' := h.isName name hname
  refine ⟨?_, fun c hc => (inName_spec c).2.2.2 (hname'.bytes c hc)⟩
  intro hhash
  exact (inName_spec hash).2.2.1 (hname'.start hash hhash) rfl

/-- What one `write_prometheus_textfile` looked at: the counters and the status while others go
on changing them, one snapshot of the store, and a count of entries taken after it. -/
structure Rendering where
  metrics : Metrics
  status : ServiceStatus
  stateEntries : Nat
  store : StateStore

namespace Rendering

def text (cfg : Config) (r : Rendering) : Bytes :=
  renderPrometheusServiceMetrics cfg.prometheusPrefix r.metrics r.status cfg.mqttPoolSize
      r.stateEntries (normalizedState cfg r.store).collisions.length ++
    renderPrometheusStateMetrics (normalizedState cfg r.store).metrics

def families (cfg : Config) (r : Rendering) : List Family :=
  serviceFamilies cfg.prometheusPrefix r.metrics r.status cfg.mqttPoolSize r.stateEntries
      (normalizedState cfg r.store).collisions.length ++
    stateFamilies (normalizedState cfg r.store).metrics

/-- No series of the store has a name of the service half. -/
def Apart (cfg : Config) (r : Rendering) : Prop :=
  ∀ name ∈ familySuffixes.map (cfg.prometheusPrefix ++ ·),
    name ∉ (normalizedState cfg r.store).metrics.map Prod.fst

instance (cfg : Config) (r : Rendering) : Decidable (r.Apart cfg) :=
  inferInstanceAs (Decidable (∀ name ∈ _, _))

/-- **The file is well formed exactly when its halves are apart and its values are floats**, and
then it is read back to the families of both. -/
theorem readable_iff {r : Rendering} (h : Nameable cfg r.store)
    (huptime : HasFloat r.status.uptimeSeconds) :
    ((readText (r.text cfg)).isSome ↔ r.Apart cfg ∧ FloatsShown cfg r.store) ∧
      (r.Apart cfg ∧ FloatsShown cfg r.store → ReadsAs (r.text cfg) (r.families cfg)) := by
  have hservice := shows_service h.service r.metrics huptime cfg.mqttPoolSize r.stateEntries
    (normalizedState cfg r.store).collisions.length
  have hsound := sound_serviceFamilies cfg.prometheusPrefix r.metrics r.status cfg.mqttPoolSize
    r.stateEntries (normalizedState cfg r.store).collisions.length
  have hnodup := nodup_serviceFamilies cfg.prometheusPrefix
  have hnodup' : (names (stateFamilies (normalizedState cfg r.store).metrics)).Nodup := by
    rw [names_stateFamilies]
    exact nodup_normalizeAll _ _ _
  rw [Apart, ← names_stateFamilies]
  constructor
  · by_cases hvalues : FloatsShown cfg r.store
    · rw [and_iff_left hvalues]
      refine isSome_readText_append hservice (shows_state h.isName hvalues) hsound
        (sound_stateFamilies _) hnodup hnodup' ?_
      -- both neighbours have one sample without labels
      intro f hf first hfirst
      cases Option.some.inj hf
      obtain ⟨m, -, rfl⟩ := List.mem_map.mp (List.mem_of_mem_head? hfirst)
      exact List.mem_singleton.mpr rfl
    · have hnone : readText (r.text cfg) = none :=
        (hservice.spoils (spoils_state h.isName hvalues)).readText
      rw [hnone]
      exact iff_of_false Bool.false_ne_true fun hboth => hvalues hboth.2
  · intro hboth
    exact readText_append hservice (shows_state h.isName hboth.2) hsound (sound_stateFamilies _)
      hnodup hnodup' hboth.1

end Rendering

/-- A render that nobody interferes with. -/
def renderingOf (env : Surroundings) (s : ServerState) : Rendering :=
  ⟨s.metrics, env.status, s.store.size, s.store⟩

theorem apart_renderingOf (h : Nameable cfg s.store) :
    (renderingOf env s).Apart cfg ↔ HalvesDisjoint cfg env s := by
  unfold HalvesDisjoint
  simp only [← mem_names_serviceShown h.service, ← mem_names_stateShown h, stateShown,
    names_stateFamilies]
  exact Iff.rfl

/-- **The textfile is well formed exactly when its halves are apart**, in terms of the names that
the texts themselves have, and none of its values is a negative NaN. -/
theorem textfile_readable_iff (h : Nameable cfg s.store)
    (huptime : HasFloat env.status.uptimeSeconds) :
    ((readText (prometheusTextfile cfg env s)).isSome ↔
        HalvesDisjoint cfg env s ∧ FloatsShown cfg s.store) ∧
      (HalvesDisjoint cfg env s ∧ FloatsShown cfg s.store →
        ReadsAs (prometheusTextfile cfg env s) (serviceShown cfg env s ++ stateShown cfg s)) := by
  rw [← apart_renderingOf h]
  exact @Rendering.readable_iff cfg (renderingOf env s) h huptime

/-- A server where somebody sent `-nan` for `a`. -/
def negativeNan : ServerState :=
  ⟨StateStore.set SortedMap.empty (ascii "a") (Binary64.nan true), ⟨none, none⟩, [], {}⟩

/-- The file of a server with the default prefixes, with and without `-nan`. -/
theorem textfile_readable_defaults :
    ReadsAs (prometheusTextfile {} quietSurroundings (oneEntry (ascii "a") 1))
        (serviceShown {} quietSurroundings (oneEntry (ascii "a") 1) ++
          stateShown {} (oneEntry (ascii "a") 1)) ∧
      ¬ (readText (prometheusTextfile {} quietSurroundings negativeNan)).isSome = true := by
  have huptime : HasFloat quietSurroundings.status.uptimeSeconds := by decide +kernel
  constructor
  · apply (textfile_readable_iff (nameable_defaults _) huptime).2
    exact ⟨(apart_renderingOf (nameable_defaults _)).mp (by decide +kernel), by decide +kernel⟩
  · rw [(textfile_readable_iff (nameable_defaults _) huptime).1]
    exact fun h => absurd h.2 (by decide +kernel)

end Nshmqtt
