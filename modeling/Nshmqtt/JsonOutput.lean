import Nshmqtt.JsonNumbers
import Nshmqtt.MessageHandler
import Nshmqtt.SimpleUrlApi

/-!
# The JSON that is written

Bodies and state files are put together from literals, escaped names and formatted
values.  Every byte of a name is escaped into a legal string body, so whether the
result is JSON depends on the values alone: it is, exactly if they are finite.
`strtod` also reads infinities and NaN, and nothing on the way to the store or to a
response turns them down.
-/

namespace Nshmqtt

open ByteStrings DecimalText JsonGrammar

/-- Members with commas between them. -/
theorem isMembers_intercalate {m : Bytes × Bytes} {members : List (Bytes × Bytes)}
    (h : ∀ m' ∈ m :: members, StringBody m'.1 ∧ IsValue m'.2) :
    IsMembers ([comma].intercalate
      ((m :: members).map fun m => quote :: (m.1 ++ quote :: colon :: m.2))) := by
  induction members generalizing m with
  | nil =>
      obtain ⟨hname, hvalue⟩ := h m List.mem_cons_self
      rw [List.map_singleton, List.intercalate_singleton]
      exact isMembers_last hname hvalue
  | cons next members ih =>
      obtain ⟨hname, hvalue⟩ := h m List.mem_cons_self
      have hrest := ih fun m' hm' => h m' (List.mem_cons_of_mem _ hm')
      have hmore := isMembers_more hname hvalue hrest
      rw [List.map_cons, List.map_cons, List.intercalate_cons_cons]
      simpa using hmore

theorem isJsonObject_objectText {members : List (Bytes × Bytes)}
    (h : ∀ m ∈ members, StringBody m.1 ∧ IsValue m.2) : IsJsonObject (objectText members) := by
  cases members with
  | nil => exact isJsonObject_empty
  | cons m members => exact isJsonObject_members (isMembers_intercalate h)

/-- A value that starts with a brace is an object. -/
theorem isObject_of_head {value : Value} (h : value.render.head? = some openBrace) :
    value.isObject = true := by
  cases value with
  | emptyObject => rfl
  | object => rfl
  | number n =>
      obtain ⟨c, rest, htext, hc⟩ := number_cons n
      rw [Value.render, htext, List.head?_cons, Option.some.injEq] at h
      rw [h] at hc
      exact absurd hc (by decide)
  | boolean b =>
      revert h
      cases b <;> decide
  | string | null | emptyArray | array =>
      revert h
      simp +decide [Value.render, StringText.text]

/-- **The raw values of a well-formed text** are values. -/
theorem isValue_of_isJson {text : Bytes} (h : IsJson text) {pairs : List (Bytes × Bytes)}
    (htokens : tokenizeFlatObject text = some pairs) : ∀ pair ∈ pairs, IsValue pair.2 := by
  obtain ⟨doc, rfl⟩ := h
  have hblank := isBlank_space doc.before
  have hrender : doc.render = doc.before.text ++ (doc.value.render ++ doc.after.text) :=
    List.append_assoc _ _ _
  rw [hrender] at htokens
  have hobject : doc.value.isObject = true := by
    apply isObject_of_head
    obtain ⟨c, rest, hcons, hspace⟩ := (valueText_render doc.value).cons
    unfold tokenizeFlatObject at htokens
    rw [hcons, List.cons_append, skipWs_blank hblank (headNot_cons hspace)] at htokens
    split at htokens
    · cases htokens
    · rename_i tail hopen
      rw [hcons, List.head?_cons, (List.cons.inj (expect_eq_some.mp hopen)).1]
  cases hvalue : doc.value with
  | emptyObject space =>
      rw [hvalue, tokenizeFlatObject_emptyObject hblank] at htokens
      cases htokens
      nofun
  | object members =>
      rw [hvalue, tokenizeFlatObject_object hblank] at htokens
      cases htokens
      intro pair hpair
      obtain ⟨m, hm, rfl⟩ := List.mem_map.mp hpair
      exact value_of_mem_rawMembers members hm
  | string | number | boolean | null | emptyArray | array =>
      rw [hvalue] at hobject
      cases hobject

theorem hexDigit_isxdigit : ∀ n < 16, isxdigit (hexDigit n) = true := by
  decide

/-- One escaped byte is legal between quotes. -/
theorem stringBody_escapeByte (c : UInt8) : StringBody (escapeByte c) := by
  unfold escapeByte
  split_ifs with hquote hback h8 h12 h10 h13 h9 hcontrol
  · exact .escape rfl .nil
  · exact .escape rfl .nil
  · exact .escape rfl .nil
  · exact .escape rfl .nil
  · exact .escape rfl .nil
  · exact .escape rfl .nil
  · exact .escape rfl .nil
  · have hlt : c.toNat < 256 := c.toNat_lt
    have hhigh := hexDigit_isxdigit (c.toNat / 16) (by omega)
    have hlow := hexDigit_isxdigit (c.toNat % 16) (Nat.mod_lt _ (by decide))
    exact .unicode (by decide) (by decide) hhigh hlow .nil
  · exact .plain (by simpa using hcontrol) hquote hback .nil

/-- **Every name** is escaped into a legal string body. -/
theorem stringBody_jsonEscape (name : Bytes) : StringBody (jsonEscape name) := by
  induction name with
  | nil => exact .nil
  | cons c rest ih => exact (stringBody_escapeByte c).append ih

theorem isValue_quoted (name : Bytes) : IsValue (quote :: (jsonEscape name ++ [quote])) :=
  isValue_string (stringBody_jsonEscape name)

theorem isValue_boolText (b : Bool) : IsValue (boolText b) :=
  isValue_literal b

theorem isValue_formatDouble_iff (v : Double) : IsValue (formatDouble v) ↔ isFinite v = true :=
  isValue_formatGeneral_iff (by decide) v

/-- **A saved text** is JSON exactly if every value in it is finite. -/
theorem isJsonObject_saveText_iff (items : List (Bytes × Double)) :
    IsJsonObject (StateStore.saveText items) ↔ ∀ item ∈ items, isFinite item.2 = true := by
  constructor
  · intro hjson item hitem
    have htokens := StateStore.tokenizeFlatObject_saveText items
    have hmem := List.mem_map_of_mem (f := fun item : Bytes × Double =>
      (item.1, formatDouble item.2)) hitem
    exact (isValue_formatDouble_iff _).mp (isValue_of_isJson hjson.isJson htokens _ hmem)
  · intro hfinite
    rw [StateStore.saveText_eq_objectText]
    apply isJsonObject_objectText
    intro m hm
    obtain ⟨item, hitem, rfl⟩ := List.mem_map.mp hm
    exact ⟨stringBody_jsonEscape _, (isValue_formatDouble_iff _).mpr (hfinite item hitem)⟩

def IsJsonResponse (resp : HttpResponse) : Prop := resp.format = .json → IsJson resp.body

theorem isJson_objectText {members : List (Bytes × Bytes)}
    (h : ∀ m ∈ members, StringBody m.1 ∧ IsValue m.2) : IsJson (objectText members) :=
  (isJsonObject_objectText h).isJson

/-- Text that needs no escapes. -/
def isPlainText (text : Bytes) : Bool :=
  text.all fun c => 0x20 ≤ c && c != quote && c != backslash

/-- Plain text needs no escapes. -/
theorem stringBody_plain {text : Bytes} (h : isPlainText text = true) : StringBody text := by
  induction text with
  | nil => exact .nil
  | cons c text ih =>
      simp only [isPlainText, List.all_cons, Bool.and_eq_true, decide_eq_true_eq,
        bne_iff_ne] at h
      obtain ⟨⟨⟨hvisible, hquote⟩, hback⟩, hrest⟩ := h
      exact .plain hvisible hquote hback (ih hrest)

/-- Every error is a JSON text. -/
theorem isJson_jsonError (status : Nat) (message : String) :
    IsJson (jsonError status message).body := by
  have hname : StringBody (ascii "error") := stringBody_plain rfl
  have hbody : (jsonError status message).body =
      objectText [(ascii "error", quote :: (jsonEscape (ascii message) ++ [quote]))] := by
    simp only [objectText, List.map_singleton, List.intercalate_singleton, List.append_assoc,
      List.cons_append, jsonError, makeErrorResponse]
    rfl
  rw [hbody]
  apply isJson_objectText
  rw [List.forall_mem_singleton]
  exact ⟨hname, isValue_quoted _⟩

variable {cfg : Config} {env : Surroundings} {req : HttpRequest} {s : ServerState}

/-- A publish that went wrong is answered like a refusal. -/
theorem isJsonResponse_eventOutcome (call : PublishCall) (outcome : PublishOutcome) :
    IsJsonResponse (eventOutcomeResponse call outcome) := by
  have herror : ∀ message : String, isPlainText (ascii message) = true →
      IsJson (objectText [(ascii "error", quote :: (ascii message ++ [quote]))]) := by
    intro message hmessage
    apply isJson_objectText
    rw [List.forall_mem_singleton]
    have hname : StringBody (ascii "error") := stringBody_plain rfl
    exact ⟨hname, isValue_string (stringBody_plain hmessage)⟩
  intro _
  cases outcome with
  | ok =>
      have hbody : (eventOutcomeResponse call .ok).body = objectText
          [(ascii "topic", quote :: (jsonEscape call.topic ++ [quote])),
            (ascii "payload_bytes", decimalText call.payload.length),
            (ascii "qos", integerText call.qos), (ascii "retain", boolText call.retain),
            (ascii "published", boolText true)] := by
        simp only [objectText, List.map_cons, List.map_nil, List.intercalate_cons_cons,
          List.intercalate_singleton, List.append_assoc, eventOutcomeResponse, List.cons_append]
        rfl
      rw [hbody]
      apply isJson_objectText
      simp only [List.forall_mem_cons]
      refine ⟨⟨stringBody_plain rfl, isValue_quoted _⟩,
        ⟨stringBody_plain rfl, isValue_decimalText _⟩,
        ⟨stringBody_plain rfl, isValue_integerText _⟩,
        ⟨stringBody_plain rfl, isValue_boolText _⟩,
        ⟨stringBody_plain rfl, isValue_boolText _⟩, List.forall_mem_nil _⟩
  | queueFull => exact herror "mqtt publish queue full" rfl
  | timeout => exact herror "mqtt publish timed out" rfl
  | failed => exact herror "mqtt publish failed" rfl

/-- The answer to a deletion of a stored name. -/
theorem isJsonResponse_handleMetricDelete {name : Bytes}
    (hexisted : (s.store.remove name).2 = true) :
    IsJsonResponse (handleMetricDelete cfg env s name).1 := by
  intro _
  simp only [handleMetricDelete, hexisted, Bool.not_true, Bool.false_eq_true, if_false]
  generalize decide (env.publishOutcome (metricDeleteCall cfg name) = .ok) = cleared
  have hbody : ascii "\x7b\"name\":\"" ++ jsonEscape name ++
      ascii "\",\"deleted\":true,\"mqtt_cleared\":" ++ boolText cleared ++ ascii "\x7d" = objectText
        [(ascii "name", quote :: (jsonEscape name ++ [quote])), (ascii "deleted", boolText true),
          (ascii "mqtt_cleared", boolText cleared)] := by
    simp only [objectText, List.map_cons, List.map_nil, List.intercalate_cons_cons,
      List.intercalate_singleton, List.append_assoc, List.cons_append]
    rfl
  rw [hbody]
  apply isJson_objectText
  simp only [List.forall_mem_cons]
  exact ⟨⟨stringBody_plain rfl, isValue_quoted _⟩, ⟨stringBody_plain rfl, isValue_boolText _⟩,
    ⟨stringBody_plain rfl, isValue_boolText _⟩, List.forall_mem_nil _⟩

/-- **The answer to a write** is JSON exactly if the value is finite. -/
theorem isJson_handleMetricWrite_iff (name : Bytes) (value : Double) :
    IsJson (handleMetricWrite cfg env s name value).1.body ↔ isFinite value = true := by
  simp only [handleMetricWrite]
  generalize decide (env.publishOutcome (metricWriteCall cfg name value) = .ok) = published
  let members : List (Bytes × Bytes) := [(ascii "name", quote :: (jsonEscape name ++ [quote])),
    (ascii "value", formatDouble value), (ascii "mqtt_published", boolText published)]
  have hbody : ascii "\x7b\"name\":\"" ++ jsonEscape name ++ ascii "\",\"value\":" ++
      formatDouble value ++ ascii ",\"mqtt_published\":" ++ boolText published ++
      ascii "\x7d" = objectText members := by
    simp only [members, objectText, List.map_cons, List.map_nil, List.intercalate_cons_cons,
      List.intercalate_singleton, List.append_assoc, List.cons_append]
    rfl
  have hnames : StringBody (ascii "name") ∧ StringBody (ascii "value") ∧
      StringBody (ascii "mqtt_published") :=
    ⟨stringBody_plain rfl, stringBody_plain rfl,
      stringBody_plain rfl⟩
  rw [hbody]
  constructor
  · intro hjson
    have hloose : ∀ m ∈ members, LooseString m.1 ∧ ValueText m.2 := by
      simp only [members, List.forall_mem_cons]
      exact ⟨⟨loose_of_stringBody hnames.1, .string (loose_of_stringBody (stringBody_jsonEscape _))⟩,
        ⟨loose_of_stringBody hnames.2.1, valueText_formatDouble value⟩,
        ⟨loose_of_stringBody hnames.2.2, valueText_render (.boolean published)⟩,
          List.forall_mem_nil _⟩
    have hvalues := isValue_of_isJson hjson (tokenizeFlatObject_objectText hloose)
    exact (isValue_formatDouble_iff value).mp (hvalues (jsonUnescape (ascii "value"), _)
      (List.mem_map_of_mem (f := fun m : Bytes × Bytes => (jsonUnescape m.1, m.2))
        (show (ascii "value", formatDouble value) ∈ members by simp [members])))
  · intro hfinite
    apply isJson_objectText
    simp only [members, List.forall_mem_cons]
    exact ⟨⟨hnames.1, isValue_quoted _⟩,
      ⟨hnames.2.1, (isValue_formatDouble_iff value).mpr hfinite⟩,
      ⟨hnames.2.2, isValue_boolText _⟩, List.forall_mem_nil _⟩

/-- The answer to a health check. -/
theorem isJsonResponse_healthResponse (huptime : isFinite env.status.uptimeSeconds = true) :
    IsJsonResponse (healthResponse cfg env s req) := by
  intro hformat
  unfold healthResponse at hformat ⊢
  split_ifs at hformat ⊢
  have hbody : renderHealthJson version env.status cfg.mqttPoolSize s.store.size = objectText
      [(ascii "status", quote :: (ascii "ok" ++ [quote])),
        (ascii "version", quote :: (jsonEscape version ++ [quote])),
        (ascii "uptime_seconds", formatDouble env.status.uptimeSeconds),
        (ascii "mqtt_connected", boolText env.status.mqttConnected),
        (ascii "mqtt_connections_active", integerText env.status.mqttConnectionsActive),
        (ascii "mqtt_pool_size", integerText cfg.mqttPoolSize),
        (ascii "state_entries", decimalText s.store.size)] := by
    simp only [objectText, renderHealthJson, List.map_cons, List.map_nil,
      List.intercalate_cons_cons, List.intercalate_singleton, List.append_assoc, List.cons_append]
    rfl
  dsimp only
  rw [hbody]
  apply isJson_objectText
  simp only [List.forall_mem_cons]
  exact ⟨⟨stringBody_plain rfl,
      isValue_string (stringBody_plain rfl)⟩,
    ⟨stringBody_plain rfl, isValue_quoted _⟩,
    ⟨stringBody_plain rfl, (isValue_formatDouble_iff _).mpr huptime⟩,
    ⟨stringBody_plain rfl, isValue_boolText _⟩,
    ⟨stringBody_plain rfl, isValue_integerText _⟩,
    ⟨stringBody_plain rfl, isValue_integerText _⟩,
    ⟨stringBody_plain rfl, isValue_decimalText _⟩, List.forall_mem_nil _⟩

/-- The metric that a request gets to write, with its value. -/
def writtenMetric (cfg : Config) (req : HttpRequest) : Option (Bytes × Double) :=
  if isAuthorized cfg req ∧ metricName req ≠ [] then
    (metricValue cfg req).map fun value => (metricName req, value)
  else none

/-- The condition on a request. -/
def WritesFinite (cfg : Config) (req : HttpRequest) : Prop :=
  ∀ write, writtenMetric cfg req = some write → isFinite write.2 = true

/-- A metric request with a value is a write. -/
theorem handleMetric_of_value {value : Double} (hname : metricName req ≠ [])
    (hvalue : metricValue cfg req = some value) :
    handleMetric cfg env s req = handleMetricWrite cfg env s (metricName req) value := by
  have hmethods : ascii "PUT" ≠ ascii "DELETE" ∧ ascii "GET" ≠ ascii "DELETE" := by decide
  unfold metricValue at hvalue
  unfold handleMetric
  change (if metricName req = [] then _ else _) = _
  rw [if_neg hname]
  by_cases hput : req.method = ascii "PUT"
  · rw [if_pos hput] at hvalue
    rw [if_neg (by rw [hput]; exact hmethods.1), if_pos hput, hvalue]
    rfl
  · rw [if_neg hput] at hvalue
    by_cases hget : req.method = ascii "GET" ∧ cfg.simpleGet
    · rw [if_pos hget] at hvalue
      obtain ⟨text, hparam, hparse⟩ := Option.bind_eq_some_iff.mp hvalue
      rw [if_neg (by rw [hget.1]; exact hmethods.2), if_neg hput, if_pos hget, hparam]
      simp only [hparse]
      rfl
    · rw [if_neg hget] at hvalue
      cases hvalue

theorem route_of_writtenMetric {name : Bytes} {value : Double}
    (h : writtenMetric cfg req = some (name, value)) :
    route cfg env s req = handleMetricWrite cfg env s name value := by
  unfold writtenMetric at h
  split_ifs at h with hasked
  obtain ⟨value', hvalue, hpair⟩ := Option.map_eq_some_iff.mp h
  obtain ⟨rfl, rfl⟩ := Prod.mk.inj hpair
  obtain ⟨hauthorized, hname⟩ := hasked
  have hpath : req.path = ascii "/metric/" ++ metricName req := eq_append_pathAfter hname
  have hmetric : isMetricPath req.path = true := by
    rw [hpath]
    exact isMetricPath_metric _
  have hevent : isEventPath req.path = false := by
    rw [hpath]
    exact isEventPath_metric _
  unfold route
  simp only [hauthorized, hmetric, hevent, Bool.not_true, Bool.and_false, Bool.false_eq_true,
    if_false, if_true]
  exact handleMetric_of_value hname hvalue

/-- A request that writes nothing is answered in JSON, or not as JSON. -/
theorem isJsonResponse_route (huptime : isFinite env.status.uptimeSeconds = true)
    (h : writtenMetric cfg req = none) : IsJsonResponse (route cfg env s req).1 := by
  have houtcome : RouteOutcome cfg env s req (route cfg env s req) := route_outcome
  generalize route cfg env s req = result at houtcome ⊢
  cases houtcome with
  | unauthorized denied => exact fun _ => isJson_jsonError _ _
  | refused refusal =>
      cases refusal with
      | @intro status refuses message headers => exact fun _ => isJson_jsonError status message
  | event asked => exact isJsonResponse_eventOutcome _ _
  | write authorized name asked =>
      rw [writtenMetric, if_pos ⟨authorized, name⟩, asked] at h
      cases h
  | delete name method existed => exact isJsonResponse_handleMetricDelete existed
  | metrics body path => nofun
  | health path => exact isJsonResponse_healthResponse huptime

/-- **Responses.**  A response is JSON exactly if the request writes no other than a
finite value. -/
theorem isJsonResponse_route_iff (huptime : isFinite env.status.uptimeSeconds = true) :
    IsJsonResponse (route cfg env s req).1 ↔ WritesFinite cfg req := by
  unfold WritesFinite
  cases hwrite : writtenMetric cfg req with
  | none =>
      constructor
      · intro _
        nofun
      · intro _
        exact isJsonResponse_route huptime hwrite
  | some write =>
      obtain ⟨name, value⟩ := write
      rw [route_of_writtenMetric hwrite]
      constructor
      · intro hjson write heq
        rw [← Option.some.inj heq]
        exact (isJson_handleMetricWrite_iff name value).mp (hjson rfl)
      · intro hfinite _
        exact (isJson_handleMetricWrite_iff name value).mpr (hfinite _ rfl)

/-- A request that is not routed is refused. -/
theorem isJsonResponse_rejected {socket : List Recv} {counted : Bytes} {resp : HttpResponse}
    {isHead : Bool} (h : receive cfg socket = .rejected counted resp isHead) :
    IsJsonResponse resp := by
  unfold receive at h
  split at h
  · cases h
    exact fun _ => isJson_jsonError _ _
  · split at h
    · cases h
      exact fun _ => isJson_jsonError _ _
    · unfold receiveParsed receiveBody at h
      dsimp only at h
      split_ifs at h
      · cases h
        exact fun _ => isJson_jsonError _ _
      · cases h
        exact fun _ => isJson_jsonError _ _
      · split at h <;> cases h
  · cases h

/-- What changes the store: a routed request, or a message that arrived. -/
inductive StoreEvent
  | request (env : Surroundings) (req : HttpRequest)
  | message (msg : IncomingMessage)

def StoreEvent.apply (cfg : Config) (s : ServerState) : StoreEvent → ServerState
  | .request env req => (route cfg env s req).2
  | .message msg => { s with store := (messageHandler cfg s.store msg).store }

/-- Every value that the event brings is finite. -/
def StoreEvent.IsFinite (cfg : Config) : StoreEvent → Prop
  | .request _ req => WritesFinite cfg req
  | .message msg => ∀ updates, messageUpdates cfg msg.topic msg.payload = some updates →
      ∀ update ∈ updates, isFinite update.2 = true

def runEvents (cfg : Config) (s : ServerState) (events : List StoreEvent) : ServerState :=
  events.foldl (fun s event => event.apply cfg s) s

def FiniteStore (store : StateStore) : Prop := ∀ item ∈ store.entries, isFinite item.2 = true

/-- A store is finite when all its values are. -/
theorem finiteStore_iff (store : StateStore) :
    FiniteStore store ↔ ∀ name value, store.lookup name = some value → isFinite value = true := by
  constructor
  · intro h name value hlookup
    exact h (name, value) ((SortedMap.mem_entries_iff _ _ _).mpr hlookup)
  · intro h item hitem
    exact h item.1 item.2 ((SortedMap.mem_entries_iff _ _ _).mp hitem)

/-- A finite value leaves it finite. -/
theorem finiteStore_set {store : StateStore} (h : FiniteStore store) (name : Bytes)
    {value : Double} (hvalue : isFinite value = true) : FiniteStore (store.set name value) := by
  rw [finiteStore_iff] at h ⊢
  intro other found hlookup
  rw [StateStore.set, SortedMap.lookup_insert] at hlookup
  split_ifs at hlookup
  · rw [← Option.some.inj hlookup]
    exact hvalue
  · exact h other found hlookup

theorem finiteStore_foldl_set {updates : List (Bytes × Double)}
    (hupdates : ∀ update ∈ updates, isFinite update.2 = true) {store : StateStore}
    (h : FiniteStore store) :
    FiniteStore (updates.foldl (fun store update => StateStore.set store update.1 update.2) store) := by
  induction updates generalizing store with
  | nil => exact h
  | cons update updates ih =>
      exact ih (fun other hother => hupdates other (List.mem_cons_of_mem _ hother))
        (finiteStore_set h update.1 (hupdates update List.mem_cons_self))

theorem finiteStore_remove {store : StateStore} (h : FiniteStore store) (name : Bytes) :
    FiniteStore (store.remove name).1 := by
  rw [finiteStore_iff] at h ⊢
  intro other found hlookup
  rw [StateStore.remove, SortedMap.lookup_erase] at hlookup
  split_ifs at hlookup
  exact h other found hlookup

/-- **A request** that writes finite values keeps the store finite. -/
theorem finiteStore_route (hfinite : WritesFinite cfg req) (h : FiniteStore s.store) :
    FiniteStore (route cfg env s req).2.store := by
  have houtcome : RouteOutcome cfg env s req (route cfg env s req) := route_outcome
  generalize route cfg env s req = result at houtcome ⊢
  cases houtcome with
  | @write value authorized name asked =>
      have hwrite : writtenMetric cfg req = some (metricName req, value) := by
        rw [writtenMetric, if_pos ⟨authorized, name⟩, asked]
        rfl
      simp only [handleMetricWrite, saveState_eq, ServerState.publish]
      exact finiteStore_set h _ (hfinite _ hwrite)
  | delete name method existed =>
      simp only [handleMetricDelete, existed, saveState_eq, ServerState.publish, Bool.not_true,
        Bool.false_eq_true, if_false]
      exact finiteStore_remove h _
  | unauthorized | refused | event | metrics | health => exact h

/-- **One event** keeps the store finite. -/
theorem finiteStore_apply {event : StoreEvent} (hevent : event.IsFinite cfg)
    (h : FiniteStore s.store) : FiniteStore (event.apply cfg s).store := by
  cases event with
  | request env req => exact finiteStore_route hevent h
  | message msg =>
      simp only [StoreEvent.apply, messageHandler]
      cases hupdates : messageUpdates cfg msg.topic msg.payload with
      | none => exact h
      | some updates => exact finiteStore_foldl_set (hevent updates hupdates) h

/-- **Whole runs.** -/
theorem finiteStore_runEvents {events : List StoreEvent}
    (hevents : ∀ event ∈ events, event.IsFinite cfg) (h : FiniteStore s.store) :
    FiniteStore (runEvents cfg s events).store := by
  induction events generalizing s with
  | nil => exact h
  | cons event events ih =>
      exact ih (fun other hother => hevents other (List.mem_cons_of_mem _ hother))
        (finiteStore_apply (hevents event List.mem_cons_self) h)

/-- **What is written as JSON.**  A response is JSON exactly if its request writes no
other than a finite value, and a refusal before the routes always is; a saved text is
an object exactly if the store is finite; and it is in every run that brings only
finite values. -/
theorem json_output (cfg : Config) (env : Surroundings)
    (huptime : isFinite env.status.uptimeSeconds = true) :
    (∀ (s : ServerState) (req : HttpRequest),
      IsJsonResponse (route cfg env s req).1 ↔ WritesFinite cfg req) ∧
    (∀ (socket : List Recv) (counted : Bytes) (resp : HttpResponse) (isHead : Bool),
      receive cfg socket = .rejected counted resp isHead → IsJsonResponse resp) ∧
    (∀ store : StateStore,
      IsJsonObject (StateStore.saveText store.snapshot) ↔ FiniteStore store) ∧
    (∀ (s : ServerState) (events : List StoreEvent), FiniteStore s.store →
      (∀ event ∈ events, event.IsFinite cfg) →
        IsJsonObject (StateStore.saveText (runEvents cfg s events).store.snapshot)) := by
  refine ⟨fun s req => isJsonResponse_route_iff huptime,
    fun socket counted resp isHead h => isJsonResponse_rejected h,
    fun store => isJsonObject_saveText_iff store.snapshot, fun s events hstore hevents => ?_⟩
  exact (isJsonObject_saveText_iff _).mpr (finiteStore_runEvents hevents hstore)

/-- `PUT /metric/a` with this body. -/
def putText (body : String) : HttpRequest where
  method := ascii "PUT"
  path := ascii "/metric/a"
  body := ascii body

/-- A write of one half. -/
theorem json_output_half :
    IsJsonResponse (route {} quietSurroundings (oneEntry (ascii "b") 1) (putText "0.5")).1 ∧
      IsJsonObject (StateStore.saveText (runEvents {} (oneEntry (ascii "b") 1)
        [.request quietSurroundings (putText "0.5")]).store.snapshot) := by
  have huptime : isFinite quietSurroundings.status.uptimeSeconds = true := by decide +kernel
  obtain ⟨hresponse, -, -, hrun⟩ := json_output {} quietSurroundings huptime
  have hwrites : ∀ write ∈ writtenMetric {} (putText "0.5"), isFinite write.2 = true := by
    decide +kernel
  have hfinite : WritesFinite {} (putText "0.5") := hwrites
  have hstore : FiniteStore (oneEntry (ascii "b") 1).store := by
    unfold FiniteStore
    decide +kernel
  exact ⟨(hresponse _ _).mpr hfinite,
    hrun _ _ hstore (List.forall_mem_singleton.mpr hfinite)⟩

/-- **An infinity** goes through: to the response and to the state file. -/
theorem infinite_value_written :
    ¬ IsJsonResponse (route {} quietSurroundings (oneEntry (ascii "b") 1) (putText "inf")).1 ∧
      ¬ IsJsonObject (StateStore.saveText (runEvents {} (oneEntry (ascii "b") 1)
        [.request quietSurroundings (putText "inf")]).store.snapshot) := by
  have hwrite : writtenMetric {} (putText "inf") =
      some (ascii "a", Binary64.infinity false) := by decide +kernel
  have hinfinite : isFinite (Binary64.infinity false) = false := by decide +kernel
  constructor
  · intro hjson
    have huptime : isFinite quietSurroundings.status.uptimeSeconds = true := by decide +kernel
    have hfinite := (isJsonResponse_route_iff huptime).mp hjson _ hwrite
    rw [hinfinite] at hfinite
    cases hfinite
  · intro hjson
    have hentry : (ascii "a", Binary64.infinity false) ∈ (runEvents {} (oneEntry (ascii "b") 1)
        [.request quietSurroundings (putText "inf")]).store.snapshot := by decide +kernel
    have hfinite := (isJsonObject_saveText_iff _).mp hjson _ hentry
    rw [hinfinite] at hfinite
    cases hfinite

end Nshmqtt
