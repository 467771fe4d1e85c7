import Nshmqtt.Server

/-!
# What a route can come to

`route` and the handlers below it are one large case analysis.  It is made once, here:
a routed request is turned away for its token, refused with nothing done, answered by
one of the reading routes, or it publishes an event, writes a metric or deletes one.
-/

namespace Nshmqtt

open ByteStrings DecimalText

/-- The routes that only read. -/
def isReadPath (path : Bytes) : Prop :=
  path = ascii "/health" ∨ path = ascii "/metrics" ∨ path = ascii "/metrics-state"

/-- The value of a metric write: from the body of a PUT, or the value parameter of
the simple form. -/
def metricValue (cfg : Config) (req : HttpRequest) : Option Double :=
  if req.method = ascii "PUT" then putValue req
  else if req.method = ascii "GET" ∧ cfg.simpleGet then
    (findQueryParam req (ascii "value")).bind parseDouble
  else none

/-- A refusal by a handler: a fixed text, possibly with headers. -/
inductive IsRefusal : HttpResponse → Prop
  | intro {status : Nat} (refuses : status = 400 ∨ status = 404 ∨ status = 405)
      (message : String) (headers : List (Bytes × Bytes)) :
      IsRefusal { jsonError status message with headers := headers }

/-- The name of the metric in the path. -/
def metricName (req : HttpRequest) : Bytes := pathAfter (ascii "/metric/") req.path

/-- The response to a request and the state after it. -/
inductive RouteOutcome (cfg : Config) (env : Surroundings) (s : ServerState) (req : HttpRequest) :
    HttpResponse × ServerState → Prop
  | unauthorized (denied : isAuthorized cfg req = false) :
      RouteOutcome cfg env s req (jsonError 401 "unauthorized", s)
  | refused {resp : HttpResponse} (refusal : IsRefusal resp) : RouteOutcome cfg env s req (resp, s)
  | event {call : PublishCall} (asked : eventCall cfg env req = .ok call) :
      RouteOutcome cfg env s req
        (eventOutcomeResponse call (env.publishOutcome call), s.publish call)
  | write {value : Double} (authorized : isAuthorized cfg req = true) (name : metricName req ≠ [])
      (asked : metricValue cfg req = some value) :
      RouteOutcome cfg env s req (handleMetricWrite cfg env s (metricName req) value)
  | delete (name : metricName req ≠ []) (method : req.method = ascii "DELETE")
      (existed : (s.store.remove (metricName req)).2 = true) :
      RouteOutcome cfg env s req (handleMetricDelete cfg env s (metricName req))
  | metrics (body : Bytes) (path : isReadPath req.path) :
      RouteOutcome cfg env s req ({ format := .prometheus, body := body }, s)
  | health (path : isReadPath req.path) :
      RouteOutcome cfg env s req (healthResponse cfg env s req, s)

variable {cfg : Config} {env : Surroundings} {req : HttpRequest} {s : ServerState}

theorem isRefusal_jsonError {status : Nat} (hstatus : status = 400 ∨ status = 404 ∨ status = 405)
    (message : String) : IsRefusal (jsonError status message) :=
  .intro hstatus message []

theorem isRefusal_methodNotAllowed (allow : String) : IsRefusal (methodNotAllowed allow) :=
  .intro (.inr (.inr rfl)) _ _

/-- The statuses of refusals. -/
theorem IsRefusal.status {resp : HttpResponse} (h : IsRefusal resp) :
    resp.status = 400 ∨ resp.status = 404 ∨ resp.status = 405 := by
  cases h with
  | intro refuses => exact refuses

/-- A payload that is missing is refused. -/
theorem isRefusal_eventPayload {resp : HttpResponse} (h : eventPayload cfg req = .error resp) :
    IsRefusal resp := by
  unfold eventPayload at h
  by_cases hpost : req.method = ascii "POST"
  · rw [if_pos hpost] at h
    cases h
  · rw [if_neg hpost] at h
    by_cases hget : req.method = ascii "GET" ∧ cfg.simpleGet
    · rw [if_pos hget] at h
      cases hparam : findQueryParam req (ascii "value") with
      | none =>
          rw [hparam] at h
          exact Except.error.inj h ▸ isRefusal_jsonError (.inl rfl) _
      | some value =>
          rw [hparam] at h
          cases h
    · rw [if_neg hget] at h
      exact Except.error.inj h ▸ isRefusal_methodNotAllowed _

theorem isRefusal_eventQos {resp : HttpResponse} (h : eventQos cfg req = .error resp) :
    IsRefusal resp := by
  unfold eventQos at h
  split at h
  · cases h
  · split at h
    · exact Except.error.inj h ▸ isRefusal_jsonError (.inl rfl) _
    · split_ifs at h
      exact Except.error.inj h ▸ isRefusal_jsonError (.inl rfl) _

theorem isRefusal_eventRetain {resp : HttpResponse} (h : eventRetain req = .error resp) :
    IsRefusal resp := by
  unfold eventRetain at h
  split at h
  · cases h
  · split at h
    · exact Except.error.inj h ▸ isRefusal_jsonError (.inl rfl) _
    · cases h

/-- An event that asks for no publish is refused. -/
theorem isRefusal_eventCall {resp : HttpResponse} (h : eventCall cfg env req = .error resp) :
    IsRefusal resp := by
  unfold eventCall at h
  simp only [bind, Except.bind, pure, Except.pure, throw, throwThe, MonadExceptOf.throw] at h
  split_ifs at h with htopic
  · exact Except.error.inj h ▸ isRefusal_jsonError (.inl rfl) _
  · cases hpayload : eventPayload cfg req with
    | error e =>
        simp only [hpayload] at h
        exact Except.error.inj h ▸ isRefusal_eventPayload hpayload
    | ok payload =>
        simp only [hpayload] at h
        cases hqos : eventQos cfg req with
        | error e =>
            simp only [hqos] at h
            exact Except.error.inj h ▸ isRefusal_eventQos hqos
        | ok qos =>
            simp only [hqos] at h
            cases hretain : eventRetain req with
            | error e =>
                simp only [hretain] at h
                exact Except.error.inj h ▸ isRefusal_eventRetain hretain
            | ok retain =>
                simp only [hretain] at h
                cases h

/-- **The event route** refuses, or makes one call. -/
theorem handleEvent_outcome : RouteOutcome cfg env s req (handleEvent cfg env s req) := by
  unfold handleEvent
  cases hcall : eventCall cfg env req with
  | error resp => exact .refused (isRefusal_eventCall hcall)
  | ok call => exact .event hcall

/-- A delete of an unknown name is refused. -/
theorem handleMetricDelete_outcome (hname : metricName req ≠ [])
    (hmethod : req.method = ascii "DELETE") :
    RouteOutcome cfg env s req (handleMetricDelete cfg env s (metricName req)) := by
  cases hexisted : (s.store.remove (metricName req)).2 with
  | true => exact .delete hname hmethod hexisted
  | false =>
      have hmissing : handleMetricDelete cfg env s (metricName req) =
          (jsonError 404 "not found", s) := by
        unfold handleMetricDelete
        simp only [hexisted, Bool.not_false, if_true]
      rw [hmissing]
      exact .refused (isRefusal_jsonError (.inr (.inl rfl)) _)

/-- **The metric route** refuses, reads, writes or deletes. -/
theorem handleMetric_outcome (hauthorized : isAuthorized cfg req = true) :
    RouteOutcome cfg env s req (handleMetric cfg env s req) := by
  have hrefused : ∀ message, RouteOutcome cfg env s req (jsonError 400 message, s) :=
    fun message => .refused (isRefusal_jsonError (.inl rfl) message)
  have hwrite : ∀ value, metricName req ≠ [] → metricValue cfg req = some value →
      RouteOutcome cfg env s req (handleMetricWrite cfg env s (metricName req) value) :=
    fun value hname hvalue => .write hauthorized hname hvalue
  unfold handleMetric
  change RouteOutcome cfg env s req (if metricName req = [] then _ else _)
  split_ifs with hname hdelete hput hget
  · exact hrefused _
  · exact handleMetricDelete_outcome hname hdelete
  · cases hvalue : putValue req with
    | none => exact hrefused _
    | some value => exact hwrite value hname (by rw [metricValue, if_pos hput, hvalue])
  · cases hparam : findQueryParam req (ascii "value") with
    | none => exact hrefused _
    | some valueText =>
        simp only
        cases hvalue : parseDouble valueText with
        | none => exact hrefused _
        | some value =>
            apply hwrite value hname
            rw [metricValue, if_neg hput, if_pos hget, hparam, Option.bind_some, hvalue]
  · exact .refused (isRefusal_methodNotAllowed _)
  · exact .refused (isRefusal_methodNotAllowed _)

/-- **The outcomes of a route.** -/
theorem route_outcome : RouteOutcome cfg env s req (route cfg env s req) := by
  have hmissing : ∀ message, RouteOutcome cfg env s req (jsonError 404 message, s) :=
    fun message => .refused (isRefusal_jsonError (.inr (.inl rfl)) message)
  unfold route
  simp only
  split_ifs with hauth hevent hmetric hmetrics hread hprometheus hservice hhealth hread
  · rw [Bool.and_eq_true, Bool.not_eq_true'] at hauth
    exact .unauthorized hauth.2
  · exact handleEvent_outcome
  · apply handleMetric_outcome
    simpa [needsAuth, hmetric] using hauth
  · exact .refused (isRefusal_methodNotAllowed _)
  · exact hmissing _
  · exact .metrics _ (.inr hmetrics)
  · exact .metrics _ (.inr hmetrics)
  · exact .refused (isRefusal_methodNotAllowed _)
  · exact .health (.inl hhealth)
  · exact hmissing _

end Nshmqtt
