import Nshmqtt.MetricNames
import Nshmqtt.RouteAccess

/-!
# Names in the two halves of the metrics

The service half names its series by a prefix and one of a fixed list of suffixes, the state
half by another prefix and a normalized topic name.  When one prefix extends the other, a topic
can take the name of a service series.

* `seriesNames_serviceBody`, `mem_seriesNames_metricsStateBody` : the names in each half;
* `halvesDisjoint_iff` : which stores, and which pairs of prefixes, keep the halves apart.
-/

namespace Nshmqtt

open ByteStrings DecimalText

/-- The bytes that a name cannot go over. -/
def endsName (c : UInt8) : Bool := c == newline || c == blank || c == openBrace

/-- The name of the series in a line, if it has one. -/
def lineSeries (line : Bytes) : Option Bytes :=
  if line = [] ∨ line.head? = some hash then none
  else some (line.takeWhile fun c => !endsName c)

/-- The names of the series of a text, in order. -/
def seriesNames (text : Bytes) : List Bytes := (text.splitOn newline).filterMap lineSeries

/-- A name that can be read back: it does not look like a comment, and nothing in it ends it. -/
structure PlainName (name : Bytes) : Prop where
  start : name.head? ≠ some hash
  bytes : ∀ c ∈ name, endsName c = false

/-- A text of whole lines with the given names. -/
def Writes (text : Bytes) (names : List Bytes) : Prop :=
  ∀ rest, seriesNames (text ++ rest) = names ++ seriesNames rest

/-- The series of two texts are those of both. -/
theorem Writes.append {text text' : Bytes} {names names' : List Bytes} (h : Writes text names)
    (h' : Writes text' names') : Writes (text ++ text') (names ++ names') := by
  intro rest
  rw [List.append_assoc, h, h', List.append_assoc]

/-- A whole text has the series that it writes. -/
theorem Writes.seriesNames {text : Bytes} {names : List Bytes} (h : Writes text names) :
    seriesNames text = names := by
  have hnil := h []
  rw [List.append_nil] at hnil
  rw [hnil]
  exact List.append_nil names

/-- The series written, by another name. -/
theorem Writes.cast {text : Bytes} {names names' : List Bytes} (h : Writes text names)
    (hnames : names = names') : Writes text names' :=
  hnames ▸ h

theorem writes_nil : Writes [] [] := fun _ => rfl

/-- A line writes the series that it begins with. -/
theorem writes_line {line : Bytes} (h : newline ∉ line) :
    Writes (line ++ [newline]) (lineSeries line).toList := by
  intro rest
  have hpieces : (line ++ [newline] ++ rest).splitOn newline = line :: rest.splitOn newline := by
    rw [List.append_assoc]
    exact List.splitOn_append_cons_self_of_not_mem h rest
  rw [Nshmqtt.seriesNames, hpieces]
  cases hline : lineSeries line with
  | none => exact List.filterMap_cons_none hline
  | some name => exact List.filterMap_cons_some hline

/-- A comment writes none. -/
theorem writes_comment {line : Bytes} (h : newline ∉ line) (hhash : line.head? = some hash) :
    Writes (line ++ [newline]) [] := by
  have hline := writes_line h
  rw [lineSeries, if_pos (.inr hhash)] at hline
  exact hline

/-- A line with a name, a byte that ends it, and the rest. -/
theorem writes_series {name value : Bytes} {c : UInt8} (hname : PlainName name)
    (hc : endsName c = true) (h : newline ∉ c :: value) :
    Writes (name ++ c :: value ++ [newline]) [name] := by
  have hnewline : newline ∉ name ++ c :: value := by
    rw [List.mem_append, not_or]
    exact ⟨fun hmem => absurd (hname.bytes _ hmem) (by decide), h⟩
  have hstart : ¬(name ++ c :: value = [] ∨ (name ++ c :: value).head? = some hash) := by
    rw [not_or]
    refine ⟨by simp, ?_⟩
    cases name with
    | nil =>
        intro hhash
        cases Option.some.inj hhash
        exact absurd hc (by decide)
    | cons first rest => exact hname.start
  have htake : (name ++ c :: value).takeWhile (fun c => !endsName c) = name := by
    rw [List.takeWhile_append_of_pos (by simpa using hname.bytes),
      List.takeWhile_cons_of_neg (by simp [hc]), List.append_nil]
  have hline := writes_line hnewline
  rw [lineSeries, if_neg hstart, htake] at hline
  exact hline

theorem newline_not_mem_formatDouble (v : Double) : newline ∉ formatDouble v :=
  fun h => absurd (formatByte_formatGeneral h) (by decide)

theorem newline_not_mem_decimalText (n : Nat) : newline ∉ decimalText n :=
  fun h => absurd (isdigit_of_mem_decimalText h) (by decide)

theorem PlainName.newline_not_mem {name : Bytes} (h : PlainName name) : newline ∉ name :=
  fun hmem => absurd (h.bytes _ hmem) (by decide)

/-- The two lines in front of a series. -/
theorem writes_head {name help kind : Bytes} (hname : PlainName name) (hhelp : newline ∉ help)
    (hkind : newline ∉ kind) :
    Writes (textLine [ascii "# HELP ", name, ascii " ", help] ++
      textLine [ascii "# TYPE ", name, kind]) [] := by
  have hblank : newline ∉ ascii " " := by decide
  have hhelpWord : newline ∉ ascii "# HELP " := by decide
  have htypeWord : newline ∉ ascii "# TYPE " := by decide
  have hfirst : Writes (textLine [ascii "# HELP ", name, ascii " ", help]) [] :=
    writes_comment (by simp [hname.newline_not_mem, hhelp, hblank, hhelpWord]) rfl
  have hsecond : Writes (textLine [ascii "# TYPE ", name, kind]) [] :=
    writes_comment (by simp [hname.newline_not_mem, hkind, htypeWord]) rfl
  exact hfirst.append hsecond

/-- A value writes its name. -/
theorem writes_value {name value : Bytes} (hname : PlainName name) (hvalue : newline ∉ value) :
    Writes (textLine [name, ascii " ", value]) [name] := by
  have hseries := @writes_series name value blank hname rfl (by simp [hvalue]; decide)
  have htext : textLine [name, ascii " ", value] = name ++ blank :: value ++ [newline] := by
    simp [textLine, ascii]
  rw [htext]
  exact hseries

/-- A gauge writes one series. -/
theorem writes_gauge {name help : Bytes} (hname : PlainName name) (hhelp : newline ∉ help)
    (value : Double) : Writes (writeGauge name help value) [name] :=
  (writes_head hname hhelp (by decide)).append
    (writes_value hname (newline_not_mem_formatDouble value))

theorem writes_counter {name help : Bytes} (hname : PlainName name) (hhelp : newline ∉ help)
    (value : UInt64) : Writes (writeCounter name help [] value) [name] :=
  (writes_head hname hhelp (by decide)).append
    (writes_value hname (newline_not_mem_decimalText value.toNat))

/-- One with labels writes as many as it has. -/
theorem writes_labelled {name help label : Bytes} (hname : PlainName name)
    (hhelp : newline ∉ help) (hlabel : newline ∉ label) {series : List (Bytes × UInt64)}
    (hseries : ∀ entry ∈ series, newline ∉ entry.1) :
    Writes (writeLabelled name help label series) (series.map fun _ => name) := by
  have hlines : Writes (series.map fun entry => textLine [name, [openBrace], label, ascii "=\"",
      entry.1, ascii "\"\x7d ", decimalText entry.2.toNat]).flatten (series.map fun _ => name) := by
    induction series with
    | nil => exact writes_nil
    | cons entry rest ih =>
        rw [List.forall_mem_cons] at hseries
        have hquote : newline ∉ ascii "=\"" := by decide
        have hclose : newline ∉ ascii "\"\x7d " := by decide
        have hline := @writes_series name (label ++ (ascii "=\"" ++ (entry.1 ++
          (ascii "\"\x7d " ++ decimalText entry.2.toNat)))) openBrace hname rfl
          (by simp [hlabel, hseries.1, hquote, hclose, newline_not_mem_decimalText]; decide)
        have htext : textLine [name, [openBrace], label, ascii "=\"", entry.1, ascii "\"\x7d ",
            decimalText entry.2.toNat] = name ++ openBrace :: (label ++ (ascii "=\"" ++ (entry.1 ++
              (ascii "\"\x7d " ++ decimalText entry.2.toNat)))) ++ [newline] := by
          simp [textLine]
        rw [List.map_cons, List.flatten_cons, htext]
        exact hline.append (ih hseries.2)
  exact (writes_head hname hhelp (by decide)).append hlines

/-- What follows the prefix in the names of the service half, once for each series. -/
def serviceSuffixes : List Bytes :=
  [ascii "up", ascii "uptime_seconds", ascii "mqtt_connected", ascii "mqtt_connections_active",
   ascii "mqtt_pool_size", ascii "mqtt_publish_queue_depth", ascii "state_entries",
   ascii "metric_name_collisions", ascii "http_requests_total", ascii "http_requests_total",
   ascii "http_requests_total", ascii "http_requests_total", ascii "http_requests_total",
   ascii "http_responses_total", ascii "http_responses_total", ascii "http_responses_total",
   ascii "mqtt_publish_total", ascii "mqtt_publish_total", ascii "mqtt_publish_total",
   ascii "mqtt_queue_full_total", ascii "mqtt_reconnects_total",
   ascii "mqtt_messages_received_total", ascii "mqtt_messages_dropped_total",
   ascii "webhook_queue_depth", ascii "webhook_delivered_total", ascii "webhook_failed_total",
   ascii "webhook_queue_full_total"]

/-- A name byte does not end a name and begins no comment. -/
theorem isNameByte_plain (c : UInt8) : isNameByte c = true → endsName c = false ∧ c ≠ hash :=
  forall_byte (p := fun c => isNameByte c = true → endsName c = false ∧ c ≠ hash)
    (by decide +kernel) c

/-- A plain prefix in front of the bytes of a name. -/
theorem PlainName.append {pre body : Bytes} (hpre : PlainName pre)
    (hbody : ∀ c ∈ body, isNameByte c = true) : PlainName (pre ++ body) where
  start := by
    cases pre with
    | nil =>
        intro h
        exact (isNameByte_plain _ (hbody _ (List.mem_of_mem_head? h))).2 rfl
    | cons first rest => exact hpre.start
  bytes := List.forall_mem_append.mpr
    ⟨hpre.bytes, fun c hc => (isNameByte_plain c (hbody c hc)).1⟩

theorem plainName_suffix {pre : Bytes} (hpre : PlainName pre) {suffix : Bytes}
    (h : suffix.all isNameByte = true) : PlainName (pre ++ suffix) :=
  hpre.append (List.all_eq_true.mp h)

/-- The family that is always there. -/
theorem writes_up {pre : Bytes} (hpre : PlainName pre) :
    Writes (textLine [ascii "# HELP ", pre,
        ascii "up 1 if this nshmqtt process is running (always 1 if you can scrape it)"] ++
      textLine [ascii "# TYPE ", pre, ascii "up gauge"] ++ textLine [pre, ascii "up 1"])
      [pre ++ ascii "up"] := by
  have hhelpWord : newline ∉ ascii "# HELP " := by decide
  have htypeWord : newline ∉ ascii "# TYPE " := by decide
  have hhelp : newline ∉
      ascii "up 1 if this nshmqtt process is running (always 1 if you can scrape it)" := by
    decide +kernel
  have htype : newline ∉ ascii "up gauge" := by decide
  have hfirst : Writes (textLine [ascii "# HELP ", pre,
      ascii "up 1 if this nshmqtt process is running (always 1 if you can scrape it)"]) [] :=
    writes_comment (by simp [hpre.newline_not_mem, hhelpWord, hhelp]) rfl
  have hsecond : Writes (textLine [ascii "# TYPE ", pre, ascii "up gauge"]) [] :=
    writes_comment (by simp [hpre.newline_not_mem, htypeWord, htype]) rfl
  have hthird := @writes_series (pre ++ ascii "up") (ascii "1") blank (plainName_suffix hpre rfl)
    rfl (by decide)
  have htext : textLine [pre, ascii "up 1"] =
      pre ++ ascii "up" ++ blank :: ascii "1" ++ [newline] := by
    simp [textLine, ascii]
  rw [htext]
  exact (hfirst.append hsecond).append hthird

/-- **The service half** has the names of the list, behind its prefix. -/
theorem writes_service {pre : Bytes} (hpre : PlainName pre) (metrics : Metrics)
    (status : ServiceStatus) (mqttPoolSize : Int) (stateEntries metricNameCollisions : Nat) :
    Writes (renderPrometheusServiceMetrics pre metrics status mqttPoolSize stateEntries
      metricNameCollisions) (serviceSuffixes.map fun suffix => pre ++ suffix) := by
  have hname : ∀ {suffix : Bytes}, suffix.all isNameByte = true → PlainName (pre ++ suffix) :=
    fun h => plainName_suffix hpre h
  unfold renderPrometheusServiceMetrics
  refine Writes.cast (writes_up hpre
    |>.append (writes_gauge (hname (by decide +kernel)) (by decide +kernel) _)
    |>.append (writes_gauge (hname (by decide +kernel)) (by decide +kernel) _)
    |>.append (writes_gauge (hname (by decide +kernel)) (by decide +kernel) _)
    |>.append (writes_gauge (hname (by decide +kernel)) (by decide +kernel) _)
    |>.append (writes_gauge (hname (by decide +kernel)) (by decide +kernel) _)
    |>.append (writes_gauge (hname (by decide +kernel)) (by decide +kernel) _)
    |>.append (writes_gauge (hname (by decide +kernel)) (by decide +kernel) _)
    |>.append (writes_labelled (hname (by decide +kernel)) (by decide +kernel) (by decide)
      (by simp only [List.forall_mem_cons]; decide +kernel))
    |>.append (writes_labelled (hname (by decide +kernel)) (by decide +kernel) (by decide)
      (by simp only [List.forall_mem_cons]; decide +kernel))
    |>.append (writes_labelled (hname (by decide +kernel)) (by decide +kernel) (by decide)
      (by simp only [List.forall_mem_cons]; decide +kernel))
    |>.append (writes_counter (hname (by decide +kernel)) (by decide +kernel) _)
    |>.append (writes_counter (hname (by decide +kernel)) (by decide +kernel) _)
    |>.append (writes_counter (hname (by decide +kernel)) (by decide +kernel) _)
    |>.append (writes_counter (hname (by decide +kernel)) (by decide +kernel) _)
    |>.append (writes_gauge (hname (by decide +kernel)) (by decide +kernel) _)
    |>.append (writes_counter (hname (by decide +kernel)) (by decide +kernel) _)
    |>.append (writes_counter (hname (by decide +kernel)) (by decide +kernel) _)
    |>.append (writes_counter (hname (by decide +kernel)) (by decide +kernel) _)) ?_
  simp only [serviceSuffixes, List.map_cons, List.map_nil, List.cons_append, List.nil_append]

/-- **The names of the service half** are its prefix with the suffixes. -/
theorem seriesNames_serviceBody {cfg : Config} (h : PlainName cfg.prometheusPrefix)
    (env : Surroundings) (s : ServerState) :
    seriesNames (serviceBody cfg env s) =
      serviceSuffixes.map fun suffix => cfg.prometheusPrefix ++ suffix :=
  (writes_service h _ _ _ _ _).seriesNames

/-- What can follow the prefix of a state series: bytes of a name, and no digit in front. -/
def IsBody (body : Bytes) : Prop :=
  (∀ c ∈ body, isNameByte c = true) ∧ ∀ c ∈ body.head?, isdigit c = false

/-- The prefix stands in front of a body that does not depend on it. -/
theorem normalizeMetricName_append (pre name topicPrefix : Bytes) :
    normalizeMetricName pre name topicPrefix =
      pre ++ normalizeMetricName [] name topicPrefix := by
  unfold normalizeMetricName
  cases (topicPrefix ++ name).map fun c => if isNameByte c then c else 95 with
  | nil => rfl
  | cons c rest =>
      dsimp only
      split_ifs <;> rfl

/-- What the bodies look like. -/
theorem isBody_normalizeMetricName (name topicPrefix : Bytes) :
    IsBody (normalizeMetricName [] name topicPrefix) := by
  obtain ⟨body, hbody, hbytes, hdigit, -⟩ := normalizeMetricName_eq [] name topicPrefix
  rw [hbody]
  exact ⟨hbytes, hdigit⟩

/-- Every body is the name of a topic that is written like it. -/
theorem normalizeMetricName_of_isBody {body : Bytes} (h : IsBody body) :
    normalizeMetricName [] body [] = body := by
  obtain ⟨hbytes, hdigit⟩ := h
  have hmap : ([] ++ body).map (fun c => if isNameByte c then c else 95) = body := by
    rw [List.nil_append]
    conv_rhs => rw [← List.map_id body]
    apply List.map_congr_left
    intro c hc
    exact if_pos (hbytes c hc)
  rw [normalizeMetricName, hmap]
  cases body with
  | nil => rfl
  | cons c rest => exact if_neg (Bool.eq_false_iff.mp (hdigit c rfl))

/-- The names that survive are those of the items, apart from those claimed before. -/
theorem mem_names_normalizeFrom (pre topicPrefix : Bytes) (claimed : List Bytes)
    (items : List (Bytes × Double)) (series : Bytes) :
    series ∈ (normalizeFrom pre topicPrefix claimed items).metrics.map Prod.fst ↔
      series ∉ claimed ∧ ∃ item ∈ items, normalizeMetricName pre item.1 topicPrefix = series := by
  induction items generalizing claimed with
  | nil => simp [normalizeFrom]
  | cons item items ih =>
      rw [normalizeFrom]
      dsimp only
      split_ifs with hclaimed
      · rw [ih]
        constructor
        · intro h
          obtain ⟨hseries, other, hother, rfl⟩ := h
          exact ⟨hseries, other, List.mem_cons_of_mem _ hother, rfl⟩
        · intro h
          obtain ⟨hseries, other, hother, rfl⟩ := h
          rcases List.mem_cons.mp hother with rfl | hother
          · exact absurd hclaimed hseries
          · exact ⟨hseries, other, hother, rfl⟩
      · rw [List.map_cons, List.mem_cons, ih, List.mem_cons, not_or]
        constructor
        · intro h
          rcases h with rfl | ⟨⟨-, hseries⟩, other, hother, rfl⟩
          · exact ⟨hclaimed, item, List.mem_cons_self, rfl⟩
          · exact ⟨hseries, other, List.mem_cons_of_mem _ hother, rfl⟩
        · intro h
          obtain ⟨hseries, other, hother, rfl⟩ := h
          rcases List.mem_cons.mp hother with rfl | hother
          · exact .inl rfl
          · by_cases hsame : normalizeMetricName pre other.1 topicPrefix =
                normalizeMetricName pre item.1 topicPrefix
            · exact .inl hsame
            · exact .inr ⟨⟨hsame, hseries⟩, other, hother, rfl⟩

/-- **The names of the state half** are those of its entries. -/
theorem writes_state {metrics : List (Bytes × Double)}
    (hnames : ∀ name ∈ metrics.map Prod.fst, PlainName name) :
    Writes (renderPrometheusStateMetrics metrics) (metrics.map Prod.fst) := by
  have hcomment : Writes (textLine
      [ascii "# Current value of each stored metric below (untyped; one series per name)"]) [] :=
    writes_comment (by rw [List.flatten_singleton]; decide +kernel) rfl
  have hlines : Writes (metrics.map fun m => textLine [m.1, ascii " ", formatDouble m.2]).flatten
      (metrics.map Prod.fst) := by
    induction metrics with
    | nil => exact writes_nil
    | cons m rest ih =>
        rw [List.map_cons, List.forall_mem_cons] at hnames
        rw [List.map_cons, List.map_cons, List.flatten_cons]
        exact (writes_value hnames.1 (newline_not_mem_formatDouble m.2)).append (ih hnames.2)
  exact hcomment.append hlines

/-- **The state half** has the names that the stored names are normalized to. -/
theorem mem_seriesNames_metricsStateBody {cfg : Config}
    (h : PlainName cfg.prometheusMqttStatePrefix) (store : StateStore) (series : Bytes) :
    series ∈ seriesNames (metricsStateBody cfg store) ↔ ∃ name ∈ store.keys,
      cfg.prometheusMqttStatePrefix ++ normalizeMetricName [] name cfg.stateTopicPrefix =
        series := by
  have hmem : ∀ series, series ∈ ((normalizeAll cfg.prometheusMqttStatePrefix store.snapshot
      cfg.stateTopicPrefix).metrics.map Prod.fst) ↔ ∃ name ∈ store.keys,
        cfg.prometheusMqttStatePrefix ++ normalizeMetricName [] name cfg.stateTopicPrefix =
          series := by
    intro series
    rw [normalizeAll, mem_names_normalizeFrom]
    constructor
    · intro h
      obtain ⟨-, item, hitem, rfl⟩ := h
      exact ⟨item.1, mem_keys_iff_exists.mpr ⟨item.2, hitem⟩,
        (normalizeMetricName_append _ _ _).symm⟩
    · intro h
      obtain ⟨name, hname, rfl⟩ := h
      obtain ⟨value, hvalue⟩ := mem_keys_iff_exists.mp hname
      exact ⟨List.not_mem_nil, (name, value), hvalue, normalizeMetricName_append _ _ _⟩
  have hplain : ∀ name ∈ (normalizeAll cfg.prometheusMqttStatePrefix store.snapshot
      cfg.stateTopicPrefix).metrics.map Prod.fst, PlainName name := by
    intro name hname
    obtain ⟨topic, -, rfl⟩ := (hmem name).mp hname
    exact h.append (isBody_normalizeMetricName _ _).1
  rw [metricsStateBody, (writes_state hplain).seriesNames]
  exact hmem series

/-- What `write_prometheus_textfile` writes. -/
def prometheusTextfile (cfg : Config) (env : Surroundings) (s : ServerState) : Bytes :=
  serviceBody cfg env s ++ metricsStateBody cfg s.store

/-- No name is in both halves. -/
def HalvesDisjoint (cfg : Config) (env : Surroundings) (s : ServerState) : Prop :=
  ∀ name ∈ seriesNames (serviceBody cfg env s), name ∉ seriesNames (metricsStateBody cfg s.store)

/-- The names of the file are those of the two halves. -/
theorem seriesNames_prometheusTextfile {cfg : Config} (h : PlainName cfg.prometheusPrefix)
    (env : Surroundings) (s : ServerState) :
    seriesNames (prometheusTextfile cfg env s) =
      seriesNames (serviceBody cfg env s) ++ seriesNames (metricsStateBody cfg s.store) := by
  rw [seriesNames_serviceBody h]
  exact writes_service h _ _ _ _ _ _

/-- What is left of a service name behind the prefix of the state half. -/
def Reserved (statePrefix servicePrefix body : Bytes) : Prop :=
  ∃ suffix ∈ serviceSuffixes, statePrefix ++ body = servicePrefix ++ suffix

/-- The halves share a name when a stored one is reserved. -/
theorem halvesDisjoint_iff_names {cfg : Config} (hservice : PlainName cfg.prometheusPrefix)
    (hstate : PlainName cfg.prometheusMqttStatePrefix) (env : Surroundings) (s : ServerState) :
    HalvesDisjoint cfg env s ↔ ∀ name ∈ s.store.keys,
      ¬ Reserved cfg.prometheusMqttStatePrefix cfg.prometheusPrefix
        (normalizeMetricName [] name cfg.stateTopicPrefix) := by
  unfold HalvesDisjoint Reserved
  rw [seriesNames_serviceBody hservice]
  simp only [mem_seriesNames_metricsStateBody hstate, List.forall_mem_map]
  constructor
  · intro h name hname hreserved
    obtain ⟨suffix, hsuffix, heq⟩ := hreserved
    exact h suffix hsuffix ⟨name, hname, heq⟩
  · intro h suffix hsuffix hnamed
    obtain ⟨name, hname, heq⟩ := hnamed
    exact h name hname ⟨suffix, hsuffix, heq⟩

/-- **When the halves are apart**: a store keeps them apart when no stored name is normalized to a
reserved body; a pair of prefixes does for all stores when no reserved body can be one. -/
theorem halvesDisjoint_iff {cfg : Config} (hservice : PlainName cfg.prometheusPrefix)
    (hstate : PlainName cfg.prometheusMqttStatePrefix) (env : Surroundings) (s : ServerState) :
    (HalvesDisjoint cfg env s ↔ ∀ name ∈ s.store.keys,
        ¬ Reserved cfg.prometheusMqttStatePrefix cfg.prometheusPrefix
          (normalizeMetricName [] name cfg.stateTopicPrefix)) ∧
      ((∀ topicPrefix store, HalvesDisjoint { cfg with stateTopicPrefix := topicPrefix } env
          { s with store := store }) ↔
        ∀ body, Reserved cfg.prometheusMqttStatePrefix cfg.prometheusPrefix body →
          ¬ IsBody body) := by
  refine ⟨halvesDisjoint_iff_names hservice hstate env s, ?_⟩
  constructor
  · intro h body hreserved hbody
    let store : StateStore := StateStore.set SortedMap.empty body (.ofInt 1)
    have hpair := (@halvesDisjoint_iff_names { cfg with stateTopicPrefix := [] } hservice hstate env
      { s with store := store }).mp (h [] store) body
        ((StateStore.mem_keys_set _ _ _ _).mpr (.inl rfl))
    dsimp only at hpair
    rw [normalizeMetricName_of_isBody hbody] at hpair
    exact hpair hreserved
  · intro h topicPrefix store
    apply (@halvesDisjoint_iff_names { cfg with stateTopicPrefix := topicPrefix } hservice hstate env
      { s with store := store }).mpr
    intro name _ hreserved
    exact h _ hreserved (isBody_normalizeMetricName name topicPrefix)

/-- A metric name is plain. -/
theorem IsMetricName.plainName {name : Bytes} (h : IsMetricName name) : PlainName name := by
  have hplain : PlainName ([] ++ name) :=
    PlainName.append ⟨by decide, List.forall_mem_nil _⟩ h.bytes
  rwa [List.nil_append] at hplain

theorem isMetricName_defaults :
    IsMetricName (ascii "nshmqtt_") ∧ IsMetricName (ascii "mqtt_") := by
  refine ⟨⟨by decide, List.all_eq_true.mp rfl, ?_⟩, ⟨by decide, List.all_eq_true.mp rfl, ?_⟩⟩
  · intro c hc
    cases Option.some.inj hc
    rfl
  · intro c hc
    cases Option.some.inj hc
    rfl

/-- The default prefixes do not meet, whatever is stored. -/
theorem halvesDisjoint_defaults :
    HalvesDisjoint {} quietSurroundings (oneEntry (ascii "up") 1) := by
  obtain ⟨hservice, hstate⟩ := isMetricName_defaults
  apply (halvesDisjoint_iff hservice.plainName hstate.plainName quietSurroundings
    (oneEntry (ascii "up") 1)).1.mpr
  intro name _ hreserved
  obtain ⟨suffix, -, heq⟩ := hreserved
  have hhead := congrArg List.head? heq
  exact absurd (Option.some.inj hhead) (by decide)

/-- Settings whose state prefix is that of the service and the start of one of its names. -/
def overlapping : Config := { prometheusMqttStatePrefix := ascii "nshmqtt_mqtt_" }

/-- A topic `connected` takes the name of the service's own series. -/
theorem not_halvesDisjoint_overlapping :
    IsMetricName overlapping.prometheusPrefix ∧
      IsMetricName overlapping.prometheusMqttStatePrefix ∧
      overlapping.prometheusPrefix ≠ overlapping.prometheusMqttStatePrefix ∧
      ¬ HalvesDisjoint overlapping quietSurroundings (oneEntry (ascii "connected") 1) := by
  have hservice : IsMetricName overlapping.prometheusPrefix := isMetricName_defaults.1
  have hstate : IsMetricName overlapping.prometheusMqttStatePrefix := by
    refine ⟨by decide, List.all_eq_true.mp rfl, ?_⟩
    intro c hc
    cases Option.some.inj hc
    rfl
  refine ⟨hservice, hstate, by decide, ?_⟩
  rw [halvesDisjoint_iff_names hservice.plainName hstate.plainName]
  intro h
  apply h (ascii "connected") ((StateStore.mem_keys_set _ _ _ _).mpr (.inl rfl))
  exact ⟨ascii "mqtt_connected", by decide +kernel, by decide +kernel⟩

end Nshmqtt
