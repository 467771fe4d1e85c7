import Nshmqtt.RouteAccess

/-!
# What a request changes

A routed request has one of four effects: none, one published event, one metric
written or one metric deleted.  Each is described by what it does to the store,
the state file and the publish queue, and the request determines which one it is.
Every refusal comes before any effect.
-/

namespace Nshmqtt

open ByteStrings DecimalText

inductive Effect
  | none
  | event (call : PublishCall)
  | write (name : Bytes) (value : Double)
  | delete (name : Bytes)

/-- The payload of an event: the body, or the value parameter of the simple form. -/
inductive CarriesPayload (cfg : Config) (req : HttpRequest) : Bytes → Prop
  | post (method : req.method = ascii "POST") : CarriesPayload cfg req req.body
  | get (method : req.method = ascii "GET") (simple : cfg.simpleGet = true) (value : Bytes)
      (param : findQueryParam req (ascii "value") = some value) : CarriesPayload cfg req value

/-- The publish call that an event asks for. -/
structure EventAsked (cfg : Config) (req : HttpRequest) (call : PublishCall) : Prop where
  path : req.path = ascii "/event/" ++ call.topic
  topic : call.topic ≠ []
  payload : cfg.eventPlaceholdersEnabled = false → CarriesPayload cfg req call.payload
  qosRange : 0 ≤ call.qos ∧ call.qos ≤ 2
  qos : match headerOrParam req req.qosHeader (ascii "qos") with
    | .none => call.qos = cfg.mqttQos
    | some value => parseInt value = some call.qos
  retain : match headerOrParam req req.retainHeader (ascii "retain") with
    | .none => call.retain = false
    | some value => parseBool value = some call.retain

/-- The answer to an event: its own data, or what kept it from being published. -/
structure EventAnswered (env : Surroundings) (call : PublishCall) (resp : HttpResponse) :
    Prop where
  status : resp.status = 200 ∨ resp.status = 502 ∨ resp.status = 503 ∨ resp.status = 504
  published : resp.status = 200 ↔ env.publishOutcome call = .ok
  body : resp.status = 200 → resp.body =
    ascii "\x7b\"topic\":\"" ++ jsonEscape call.topic ++
      ascii "\",\"payload_bytes\":" ++ decimalText call.payload.length ++
      ascii ",\"qos\":" ++ integerText call.qos ++
      ascii ",\"retain\":" ++ boolText call.retain ++ ascii ",\"published\":true\x7d"

/-- The state files after at most one save of `store`. -/
def savedFiles (cfg : Config) (env : Surroundings) (store : StateStore)
    (files : StateStore.StateFiles) : StateStore.StateFiles :=
  if cfg.stateEnabled then (store.save cfg.stateFile files env.saveIo).2 else files

/-- From `s` to `t` the value of `name` becomes `entry`, all else about the store is
kept, it is saved once where that is switched on, and `payload` is published once. -/
structure MetricChanged (cfg : Config) (env : Surroundings) (s t : ServerState) (name : Bytes)
    (entry : Option Double) (payload : Bytes) : Prop where
  entry : t.store.lookup name = entry
  others : ∀ other, other ≠ name → t.store.lookup other = s.store.lookup other
  saved : t.files = savedFiles cfg env t.store s.files
  published : t.publishCalls = s.publishCalls ++ [⟨name, payload, cfg.mqttQos, true⟩]
  metrics : t.metrics = s.metrics

/-- What the request, the response and the states before and after have to do with
each effect. -/
def Effect.Takes (cfg : Config) (env : Surroundings) (req : HttpRequest) (s t : ServerState)
    (resp : HttpResponse) : Effect → Prop
  | .none => ((400 ≤ resp.status ∧ resp.status < 500) ∨ isReadPath req.path) ∧ t = s
  | .event call => EventAsked cfg req call ∧ EventAnswered env call resp ∧
      t = { s with publishCalls := s.publishCalls ++ [call] }
  | .write name value => req.path = ascii "/metric/" ++ name ∧ name ≠ [] ∧
      metricValue cfg req = some value ∧ resp.status = 200 ∧
      MetricChanged cfg env s t name (some value) (formatDouble value)
  | .delete name => req.path = ascii "/metric/" ++ name ∧ name ≠ [] ∧
      req.method = ascii "DELETE" ∧ (s.store.lookup name).isSome = true ∧ resp.status = 200 ∧
      MetricChanged cfg env s t name .none []

variable {cfg : Config} {env : Surroundings} {req : HttpRequest} {s t : ServerState}
  {resp : HttpResponse}

theorem takes_none_of_status (h : 400 ≤ resp.status ∧ resp.status < 500) :
    Effect.none.Takes cfg env req s s resp :=
  ⟨.inl h, rfl⟩

/-- A nonempty rest of the path is what follows the start. -/
theorem eq_append_pathAfter {start path : Bytes} (h : pathAfter start path ≠ []) :
    path = start ++ pathAfter start path := by
  unfold pathAfter at h ⊢
  split_ifs at h ⊢ with hshort
  · exact (h rfl).elim
  · rw [not_or, Bool.not_eq_true', Bool.not_eq_false, startsWith, List.isPrefixOf_iff_prefix]
      at hshort
    obtain ⟨rest, hrest⟩ := hshort.2
    rw [← hrest, List.drop_left]

/-- The payload is where the method says. -/
theorem carriesPayload_of_eventPayload {payload : Bytes}
    (h : eventPayload cfg req = .ok payload) : CarriesPayload cfg req payload := by
  unfold eventPayload at h
  split_ifs at h with hpost hget
  · exact Except.ok.inj h ▸ .post hpost
  · cases hparam : findQueryParam req (ascii "value") with
    | none => simp [hparam] at h
    | some value =>
        rw [hparam] at h
        exact Except.ok.inj h ▸ .get hget.1 hget.2 value hparam

/-- The quality of service comes from the request, or else from the settings. -/
theorem eventQos_ok (hcfg : 0 ≤ cfg.mqttQos ∧ cfg.mqttQos ≤ 2) {qos : Int}
    (h : eventQos cfg req = .ok qos) :
    (0 ≤ qos ∧ qos ≤ 2) ∧
      match headerOrParam req req.qosHeader (ascii "qos") with
      | .none => qos = cfg.mqttQos
      | some value => parseInt value = some qos := by
  unfold eventQos at h
  cases hvalue : headerOrParam req req.qosHeader (ascii "qos") with
  | none =>
      rw [hvalue] at h
      exact Except.ok.inj h ▸ ⟨hcfg, rfl⟩
  | some value =>
      simp only [hvalue] at h ⊢
      cases hparse : parseInt value with
      | none => simp [hparse] at h
      | some parsed =>
          simp only [hparse] at h
          split_ifs at h with hrange
          rw [not_or, Int.not_lt, Int.not_lt] at hrange
          exact Except.ok.inj h ▸ ⟨hrange, rfl⟩

/-- The retain flag comes from the request, or else it is off. -/
theorem eventRetain_ok {retain : Bool} (h : eventRetain req = .ok retain) :
    match headerOrParam req req.retainHeader (ascii "retain") with
    | .none => retain = false
    | some value => parseBool value = some retain := by
  unfold eventRetain at h
  cases hvalue : headerOrParam req req.retainHeader (ascii "retain") with
  | none =>
      rw [hvalue] at h
      exact (Except.ok.inj h).symm
  | some value =>
      simp only [hvalue] at h ⊢
      cases hparse : parseBool value with
      | none => simp [hparse] at h
      | some parsed =>
          simp only [hparse] at h
          exact congrArg some (Except.ok.inj h)

/-- The parts of a call that is made. -/
theorem eventCall_ok {call : PublishCall} (h : eventCall cfg env req = .ok call) :
    pathAfter (ascii "/event/") req.path = call.topic ∧ call.topic ≠ [] ∧
      (∃ payload, eventPayload cfg req = .ok payload ∧
        call.payload = fillPlaceholders cfg env payload) ∧
      eventQos cfg req = .ok call.qos ∧ eventRetain req = .ok call.retain := by
  unfold eventCall at h
  simp only [bind, Except.bind, pure, Except.pure, throw, throwThe, MonadExceptOf.throw] at h
  split_ifs at h with htopic
  cases hpayload : eventPayload cfg req with
  | error e => simp [hpayload] at h
  | ok payload =>
      cases hqos : eventQos cfg req with
      | error e => simp [hpayload, hqos] at h
      | ok qos =>
          cases hretain : eventRetain req with
          | error e => simp [hpayload, hqos, hretain] at h
          | ok retain =>
              simp only [hpayload, hqos, hretain] at h
              obtain rfl := Except.ok.inj h
              exact ⟨rfl, htopic, ⟨payload, rfl, rfl⟩, rfl, rfl⟩

/-- A call has what was asked for. -/
theorem eventAsked_of_eventCall (hcfg : 0 ≤ cfg.mqttQos ∧ cfg.mqttQos ≤ 2) {call : PublishCall}
    (h : eventCall cfg env req = .ok call) : EventAsked cfg req call := by
  obtain ⟨hpath, htopic, ⟨payload, hpayload, hfilled⟩, hqos, hretain⟩ := eventCall_ok h
  obtain ⟨hrange, hqos⟩ := eventQos_ok hcfg hqos
  refine ⟨?_, htopic, fun hoff => ?_, hrange, hqos, eventRetain_ok hretain⟩
  · rw [← hpath] at htopic ⊢
    exact eq_append_pathAfter htopic
  · rw [hfilled, fillPlaceholders, hoff]
    exact carriesPayload_of_eventPayload hpayload

theorem eventAnswered (env : Surroundings) (call : PublishCall) :
    EventAnswered env call (eventOutcomeResponse call (env.publishOutcome call)) := by
  cases houtcome : env.publishOutcome call <;>
    constructor <;> simp [eventOutcomeResponse, houtcome]

/-- A save changes the files alone. -/
theorem saveState_eq (cfg : Config) (env : Surroundings) (s : ServerState) :
    saveState cfg env s = { s with files := savedFiles cfg env s.store s.files } := by
  unfold saveState savedFiles
  split_ifs <;> rfl

/-- A write changes one name. -/
theorem handleMetricWrite_changed (name : Bytes) (value : Double) :
    MetricChanged cfg env s (handleMetricWrite cfg env s name value).2 name (some value)
      (formatDouble value) := by
  simp only [handleMetricWrite, saveState_eq, ServerState.publish]
  exact ⟨SortedMap.lookup_insert_self _ _ _,
    fun other hother => SortedMap.lookup_insert_of_ne _ _ hother, rfl, rfl, rfl⟩

theorem handleMetricDelete_changed {name : Bytes} (hexisted : (s.store.remove name).2 = true) :
    (handleMetricDelete cfg env s name).1.status = 200 ∧
      MetricChanged cfg env s (handleMetricDelete cfg env s name).2 name .none [] := by
  simp only [handleMetricDelete, hexisted, saveState_eq, Bool.not_true, Bool.false_eq_true,
    if_false]
  refine ⟨trivial, ?_, fun other hother => ?_, rfl, rfl, rfl⟩
  · simp [ServerState.publish, StateStore.remove, SortedMap.lookup_erase]
  · simp [ServerState.publish, StateStore.remove, SortedMap.lookup_erase, hother]

/-- Every outcome is one of the effects. -/
theorem route_takes (hcfg : 0 ≤ cfg.mqttQos ∧ cfg.mqttQos ≤ 2) :
    ∃ effect : Effect, effect.Takes cfg env req s (route cfg env s req).2
      (route cfg env s req).1 := by
  have houtcome : RouteOutcome cfg env s req (route cfg env s req) := route_outcome
  generalize route cfg env s req = result at houtcome ⊢
  cases houtcome with
  | unauthorized denied =>
      exact ⟨.none, takes_none_of_status (by simp [jsonError, makeErrorResponse])⟩
  | @refused resp refusal =>
      have hstatus := refusal.status
      have hrange : 400 ≤ resp.status ∧ resp.status < 500 := by omega
      exact ⟨.none, takes_none_of_status hrange⟩
  | @event call asked =>
      exact ⟨.event call, eventAsked_of_eventCall hcfg asked, eventAnswered env call, rfl⟩
  | @write value authorized name asked =>
      exact ⟨.write (metricName req) value, eq_append_pathAfter name, name, asked, rfl,
        handleMetricWrite_changed _ value⟩
  | delete name method existed =>
      obtain ⟨hstatus, hchanged⟩ := handleMetricDelete_changed existed
      exact ⟨.delete (metricName req), eq_append_pathAfter name, name, method, existed, hstatus,
        hchanged⟩
  | metrics body path => exact ⟨.none, .inr path, rfl⟩
  | health path => exact ⟨.none, .inr path, rfl⟩

/-- The three families of paths are disjoint: they differ in the second byte, or in
the eighth. -/
theorem event_ne_metric (topic name : Bytes) :
    ascii "/event/" ++ topic ≠ ascii "/metric/" ++ name := by
  intro h
  have hsecond := congrArg (fun path => path[1]?) h
  simp [ascii] at hsecond

/-- The event route is not read only. -/
theorem not_isReadPath_event (topic : Bytes) : ¬ isReadPath (ascii "/event/" ++ topic) := by
  rintro (h | h | h) <;>
    · have hsecond := congrArg (fun path => path[1]?) h
      simp [ascii] at hsecond

theorem not_isReadPath_metric (name : Bytes) : ¬ isReadPath (ascii "/metric/" ++ name) := by
  intro h
  rcases h with h | h | h
  · have hsecond := congrArg (fun path => path[1]?) h
    simp [ascii] at hsecond
  · have heighth := congrArg (fun path => path[7]?) h
    simp [ascii] at heighth
  · have heighth := congrArg (fun path => path[7]?) h
    simp [ascii] at heighth

/-- Client errors and reads change nothing. -/
theorem unchanged_of_takes {effect : Effect} (h : effect.Takes cfg env req s t resp)
    (hnone : (400 ≤ resp.status ∧ resp.status < 500) ∨ isReadPath req.path) : t = s := by
  cases effect with
  | none => exact h.2
  | event call =>
      obtain ⟨hasked, hanswered, -⟩ := h
      rcases hnone with hstatus | hread
      · have := hanswered.status
        omega
      · rw [hasked.path] at hread
        exact (not_isReadPath_event _ hread).elim
  | write name value =>
      obtain ⟨hpath, -, -, hstatus, -⟩ := h
      rcases hnone with hrefused | hread
      · omega
      · rw [hpath] at hread
        exact (not_isReadPath_metric _ hread).elim
  | delete name =>
      obtain ⟨hpath, -, -, -, hstatus, -⟩ := h
      rcases hnone with hrefused | hread
      · omega
      · rw [hpath] at hread
        exact (not_isReadPath_metric _ hread).elim

/-- The publish calls of an effect. -/
def Effect.calls (cfg : Config) : Effect → List PublishCall
  | .none => []
  | .event call => [call]
  | .write name value => [⟨name, formatDouble value, cfg.mqttQos, true⟩]
  | .delete name => [⟨name, [], cfg.mqttQos, true⟩]

/-- An effect says which publish calls are made. -/
theorem publishCalls_of_takes {effect : Effect} (h : effect.Takes cfg env req s t resp) :
    t.publishCalls = s.publishCalls ++ effect.calls cfg := by
  cases effect with
  | none => simp [h.2, Effect.calls]
  | event call => rw [h.2.2]; rfl
  | write name value => exact h.2.2.2.2.published
  | delete name => exact h.2.2.2.2.2.published

theorem metricValue_delete (h : req.method = ascii "DELETE") : metricValue cfg req = none := by
  rw [metricValue, h, if_neg (by decide), if_neg (fun hget => absurd hget.1 (by decide))]

/-- The request and its publish calls tell the effect. -/
theorem effect_unique {first second : Effect} (h : first.Takes cfg env req s t resp)
    (h' : second.Takes cfg env req s t resp) : first = second := by
  have hcalls : first.calls cfg = second.calls cfg :=
    List.append_cancel_left ((publishCalls_of_takes h).symm.trans (publishCalls_of_takes h'))
  cases first with
  | none =>
      cases second with
      | none => rfl
      | _ => cases hcalls
  | event call =>
      cases second with
      | none => cases hcalls
      | event call' => rw [List.singleton_inj.mp hcalls]
      | write name value => exact (event_ne_metric _ _ (h.1.path.symm.trans h'.1)).elim
      | delete name => exact (event_ne_metric _ _ (h.1.path.symm.trans h'.1)).elim
  | write name value =>
      cases second with
      | none => cases hcalls
      | event call => exact (event_ne_metric _ _ (h'.1.path.symm.trans h.1)).elim
      | write name' value' =>
          have hname : name = name' := List.append_cancel_left (h.1.symm.trans h'.1)
          have hvalue : value = value' := Option.some.inj (h.2.2.1.symm.trans h'.2.2.1)
          rw [hname, hvalue]
      | delete name' =>
          have hvalue := h.2.2.1
          rw [metricValue_delete h'.2.2.1] at hvalue
          cases hvalue
  | delete name =>
      cases second with
      | none => cases hcalls
      | event call => exact (event_ne_metric _ _ (h'.1.path.symm.trans h.1)).elim
      | write name' value' =>
          have hvalue := h'.2.2.1
          rw [metricValue_delete h.2.2.1] at hvalue
          cases hvalue
      | delete name' => rw [List.append_cancel_left (h.1.symm.trans h'.1)]

/-- **One effect.**  Every request has exactly one of the four effects, and a refused
one, or one of the reading routes, changes nothing. -/
theorem route_effect (hcfg : 0 ≤ cfg.mqttQos ∧ cfg.mqttQos ≤ 2) (env : Surroundings)
    (s : ServerState) (req : HttpRequest) :
    (∃! effect : Effect, effect.Takes cfg env req s (route cfg env s req).2
      (route cfg env s req).1) ∧
    ((400 ≤ (route cfg env s req).1.status ∧ (route cfg env s req).1.status < 500) ∨
      isReadPath req.path → (route cfg env s req).2 = s) := by
  obtain ⟨effect, heffect⟩ : ∃ effect : Effect, effect.Takes cfg env req s
      (route cfg env s req).2 (route cfg env s req).1 := route_takes hcfg
  exact ⟨⟨effect, heffect, fun other hother => effect_unique hother heffect⟩,
    unchanged_of_takes heffect⟩

/-- A `PUT` of `2` with the default configuration. -/
theorem route_effect_put :
    ∃! effect : Effect, effect.Takes {} quietSurroundings
      { method := ascii "PUT", path := ascii "/metric/m", body := [50] }
      (oneEntry (ascii "a") 1)
      (route {} quietSurroundings (oneEntry (ascii "a") 1)
        { method := ascii "PUT", path := ascii "/metric/m", body := [50] }).2
      (route {} quietSurroundings (oneEntry (ascii "a") 1)
        { method := ascii "PUT", path := ascii "/metric/m", body := [50] }).1 := by
  have hcfg : 0 ≤ ({} : Config).mqttQos ∧ ({} : Config).mqttQos ≤ 2 := by decide
  exact (route_effect hcfg quietSurroundings (oneEntry (ascii "a") 1) _).1

end Nshmqtt
