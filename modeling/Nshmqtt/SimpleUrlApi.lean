import Nshmqtt.RequestRoundTrip
import Nshmqtt.RequestSegmentation
import Nshmqtt.RouteEffects

/-!
# The simple form of the URLs

With `simple_get` a value can be given in the URL of a GET.  Such a request goes
through the splitting and decoding of the query, its counterpart with a body through
the framing of the body; the handlers see the same name and the same bytes.
-/

namespace Nshmqtt

open ByteStrings DecimalText

variable {cfg : Config} {env : Surroundings} {s : ServerState}

/-- The first parameter of a name is found. -/
theorem findQueryParam_value {req : HttpRequest} {before after : List (Bytes × Bytes)}
    {key value : Bytes} (hquery : req.query = before ++ (key, value) :: after)
    (hbefore : ∀ pair ∈ before, pair.1 ≠ key) : findQueryParam req key = some value := by
  have hnone : before.find? (fun pair => decide (pair.1 = key)) = none := by
    rw [List.find?_eq_none]
    intro pair hpair
    simpa using hbefore pair hpair
  unfold findQueryParam
  rw [hquery, List.find?_append, hnone]
  simp

/-- A pair with another key does not matter. -/
theorem findQueryParam_insert {first second : HttpRequest} {before after : List (Bytes × Bytes)}
    {pair : Bytes × Bytes} {key : Bytes} (hfirst : first.query = before ++ pair :: after)
    (hsecond : second.query = before ++ after) (hpair : pair.1 ≠ key) :
    findQueryParam first key = findQueryParam second key := by
  unfold findQueryParam
  rw [hfirst, hsecond, List.find?_append, List.find?_append, List.find?_cons_of_neg (by simpa)]

/-- The token alone decides. -/
theorem isAuthorized_congr {first second : HttpRequest}
    (htoken : first.authToken = second.authToken) :
    isAuthorized cfg first = isAuthorized cfg second := by
  unfold isAuthorized
  rw [htoken]

/-- A path that begins with a word does so. -/
theorem startsWith_append (start rest : Bytes) : startsWith (start ++ rest) start = true := by
  rw [startsWith, List.isPrefixOf_iff_prefix]
  exact List.prefix_append start rest

theorem isEventPath_event (topic : Bytes) : isEventPath (ascii "/event/" ++ topic) = true := by
  rw [isEventPath, startsWith_append, Bool.or_true]

theorem isMetricPath_metric (name : Bytes) : isMetricPath (ascii "/metric/" ++ name) = true := by
  rw [isMetricPath, startsWith_append, Bool.or_true]

theorem isEventPath_metric (name : Bytes) : isEventPath (ascii "/metric/" ++ name) = false := by
  rw [isEventPath, Bool.or_eq_false_iff, beq_eq_false_iff_ne]
  constructor
  · intro h
    have hsecond := congrArg (fun path => path[1]?) h
    simp [ascii] at hsecond
  · rw [Bool.eq_false_iff, startsWith, ne_eq, List.isPrefixOf_iff_prefix]
    intro h
    obtain ⟨rest, hrest⟩ := h
    exact event_ne_metric _ _ hrest

/-- **Metrics.**  A GET with the value in its query is routed as a PUT with the value
in its body. -/
theorem route_simple_metric {get put : HttpRequest} {name : Bytes} (hsimple : cfg.simpleGet = true)
    (hget : get.method = ascii "GET") (hput : put.method = ascii "PUT")
    (hgetPath : get.path = ascii "/metric/" ++ name)
    (hputPath : put.path = ascii "/metric/" ++ name) (htoken : get.authToken = put.authToken)
    (hvalue : findQueryParam get (ascii "value") = some put.body)
    (htype : contentTypeIsJson put.contentType = false) :
    route cfg env s get = route cfg env s put := by
  have hmethods : ascii "GET" ≠ ascii "DELETE" ∧ ascii "GET" ≠ ascii "PUT" ∧
      ascii "PUT" ≠ ascii "DELETE" := by decide
  have hmetric : handleMetric cfg env s get = handleMetric cfg env s put := by
    simp only [handleMetric, hgetPath, hputPath, hget, hput, hmethods, hvalue, hsimple, putValue,
      htype, if_true, if_false, and_self, Bool.false_eq_true]
  unfold route
  simp only [hgetPath, hputPath, isAuthorized_congr htoken, isEventPath_metric,
    isMetricPath_metric, hmetric, Bool.false_eq_true, if_false, if_true]

/-- **Events.**  A GET with the payload in its query is routed as a POST with the
payload in its body, when both say the same about QoS and retain. -/
theorem route_simple_event {get post : HttpRequest} {topic : Bytes}
    (hsimple : cfg.simpleGet = true) (hget : get.method = ascii "GET")
    (hpost : post.method = ascii "POST") (hgetPath : get.path = ascii "/event/" ++ topic)
    (hpostPath : post.path = ascii "/event/" ++ topic) (htoken : get.authToken = post.authToken)
    (hqosHeader : get.qosHeader = post.qosHeader)
    (hretainHeader : get.retainHeader = post.retainHeader)
    (hqos : findQueryParam get (ascii "qos") = findQueryParam post (ascii "qos"))
    (hretain : findQueryParam get (ascii "retain") = findQueryParam post (ascii "retain"))
    (hvalue : findQueryParam get (ascii "value") = some post.body) :
    route cfg env s get = route cfg env s post := by
  have hmethods : ascii "GET" ≠ ascii "POST" := by decide
  have hpayload : eventPayload cfg get = eventPayload cfg post := by
    simp only [eventPayload, hget, hpost, hmethods, hvalue, hsimple, if_true, if_false, and_self]
  have hqosSame : eventQos cfg get = eventQos cfg post := by
    unfold eventQos headerOrParam
    rw [hqosHeader, hqos]
  have hretainSame : eventRetain get = eventRetain post := by
    unfold eventRetain headerOrParam
    rw [hretainHeader, hretain]
  have hcall : eventCall cfg env get = eventCall cfg env post := by
    unfold eventCall
    rw [hgetPath, hpostPath, hpayload, hqosSame, hretainSame]
  unfold route handleEvent
  simp only [hgetPath, hpostPath, isAuthorized_congr htoken, isEventPath_event, hcall, if_true]

/-- The headers that both forms of a call may carry. -/
def sharedHeaders : List String := ["x-mqtt-api-key", "x-mqtt-qos", "x-mqtt-retain"]

/-- The two forms of one call: the value `v` in a query among other parameters, or as
the body with its length.  The other headers agree. -/
structure SimplePair (get other : RequestForm) (start name v : Bytes) : Prop where
  getMethod : get.method = ascii "GET"
  getPath : get.path = start ++ name
  otherPath : other.path = start ++ name
  query : ∃ before after, get.request.query = before ++ (ascii "value", v) :: after ∧
    other.request.query = before ++ after ∧ ∀ pair ∈ before, pair.1 ≠ ascii "value"
  body : other.body = v
  getLength : get.lastValue "content-length" = none
  otherLength : (other.lastValue "content-length").map (digitsValue 10) = some v.length
  notChunked : get.request.chunked = false ∧ other.request.chunked = false
  headers : ∀ header ∈ sharedHeaders, get.lastValue header = other.lastValue header

/-- The request with the bytes behind its head as the body. -/
def RequestForm.framed (form : RequestForm) : HttpRequest := { form.request with body := form.body }

/-- A body of the announced length is framed as it is. -/
theorem receiveParsed_framed {form : RequestForm}
    (hlength : (form.lastValue "content-length").map (digitsValue 10) = some form.body.length)
    (hchunked : form.request.chunked = false) (hlimit : form.body.length ≤ cfg.maxBodyBytes) :
    receiveParsed cfg form.request form.body [] = .request form.framed := by
  have hcontentLength : form.request.contentLength = form.body.length := by
    obtain ⟨value, hvalue, hdigits⟩ := Option.map_eq_some_iff.mp hlength
    simp only [RequestForm.request, hvalue, Option.map_some, Option.getD_some, hdigits]
  unfold receiveParsed
  rw [hchunked, hcontentLength, if_neg Bool.false_ne_true, if_neg (by omega)]
  by_cases hbody : form.body = []
  · rw [hbody, List.length_nil, if_neg (by simp), RequestForm.framed, hbody]
    rfl
  · have hpos : 0 < form.body.length := List.length_pos_iff.mpr hbody
    rw [if_pos (by omega)]
    apply receiveBody_whole
    rw [hcontentLength, Int.toNat_natCast]

/-- Without a length there is no body. -/
theorem receiveParsed_bare {form : RequestForm} (hlength : form.lastValue "content-length" = none)
    (hchunked : form.request.chunked = false) :
    receiveParsed cfg form.request form.body [] = .request form.request := by
  have hcontentLength : form.request.contentLength = -1 := by
    simp only [RequestForm.request, hlength, Option.map_none, Option.getD_none]
  unfold receiveParsed
  rw [hchunked, hcontentLength, if_neg Bool.false_ne_true, if_neg (by omega), if_neg (by omega)]

namespace SimplePair

variable {get other : RequestForm} {start name v : Bytes}

/-- The simple form has the body in its query. -/
theorem value (hpair : SimplePair get other start name v) :
    findQueryParam get.request (ascii "value") = some other.framed.body := by
  obtain ⟨before, after, hget, -, hbefore⟩ := hpair.query
  rw [findQueryParam_value hget hbefore, RequestForm.framed, hpair.body]

/-- A parameter with another key is the same in both. -/
theorem param (hpair : SimplePair get other start name v) {key : Bytes}
    (hkey : ascii "value" ≠ key) :
    findQueryParam get.request key = findQueryParam other.framed key := by
  obtain ⟨before, after, hget, hother, -⟩ := hpair.query
  exact findQueryParam_insert hget hother hkey

/-- The other headers are the same. -/
theorem header (hpair : SimplePair get other start name v) {header : String}
    (hheader : header ∈ sharedHeaders) :
    (get.lastValue header).getD [] = (other.lastValue header).getD [] := by
  rw [hpair.headers header hheader]

/-- Both forms lead to the same response and the same state. -/
theorem route_metric (hpair : SimplePair get other (ascii "metric/") name v)
    (hsimple : cfg.simpleGet = true) (hput : other.method = ascii "PUT")
    (htype : contentTypeIsJson other.request.contentType = false) :
    route cfg env s get.request = route cfg env s other.framed := by
  have hstart : slash :: (ascii "metric/" ++ name) = ascii "/metric/" ++ name := rfl
  apply route_simple_metric hsimple hpair.getMethod hput
  · rw [RequestForm.request, hpair.getPath, hstart]
  · rw [RequestForm.framed, RequestForm.request, hpair.otherPath, hstart]
  · exact hpair.header (by decide)
  · exact hpair.value
  · exact htype

/-- **An event** takes the same way in both forms. -/
theorem route_event (hpair : SimplePair get other (ascii "event/") name v)
    (hsimple : cfg.simpleGet = true) (hpost : other.method = ascii "POST") :
    route cfg env s get.request = route cfg env s other.framed := by
  have hstart : slash :: (ascii "event/" ++ name) = ascii "/event/" ++ name := rfl
  apply route_simple_event hsimple hpair.getMethod hpost
  · rw [RequestForm.request, hpair.getPath, hstart]
  · rw [RequestForm.framed, RequestForm.request, hpair.otherPath, hstart]
  · exact hpair.header (by decide)
  · exact hpair.header (by decide)
  · exact hpair.header (by decide)
  · exact hpair.param (by decide)
  · exact hpair.param (by decide)
  · exact hpair.value

end SimplePair

/-- The calls that have a simple form. -/
inductive SimpleCall (other : RequestForm) : Bytes → Prop
  | metric (put : other.method = ascii "PUT")
      (plain : contentTypeIsJson other.request.contentType = false) :
      SimpleCall other (ascii "metric/")
  | event (post : other.method = ascii "POST") : SimpleCall other (ascii "event/")

/-- **The simple form.**  The raw bytes of both forms parse and are framed, and the
two requests they make are answered alike and leave the same state: store, files,
publish calls and counters. -/
theorem simple_form_equivalent {get other : RequestForm} {start name v : Bytes}
    (hsimple : cfg.simpleGet = true) (hpair : SimplePair get other start name v)
    (hcall : SimpleCall other start) (hlimit : v.length ≤ cfg.maxBodyBytes) :
    parseHttpRequest get.text {} = some (get.request, get.body) ∧
      receiveParsed cfg get.request get.body [] = .request get.request ∧
      parseHttpRequest other.text {} = some (other.request, v) ∧
      receiveParsed cfg other.request v [] = .request other.framed ∧
      other.framed.body = v ∧
      ∀ (env : Surroundings) (s : ServerState),
        route cfg env s get.request = route cfg env s other.framed := by
  have hbody := hpair.body
  have hparse := other.parse_text
  have hframed : receiveParsed cfg other.request other.body [] = .request other.framed := by
    apply receiveParsed_framed _ hpair.notChunked.2
    · rw [hbody]
      exact hlimit
    · rw [hbody]
      exact hpair.otherLength
  rw [hbody] at hparse hframed
  refine ⟨get.parse_text, receiveParsed_bare hpair.getLength hpair.notChunked.1, hparse, hframed,
    hbody, fun env s => ?_⟩
  cases hcall with
  | metric put plain => exact hpair.route_metric hsimple put plain
  | event post => exact hpair.route_event hsimple post

/-- `GET /event/a?value=%26&qos=2`. -/
def getAmpersand : RequestForm where
  method := ascii "GET"
  path := ascii "event/a"
  pathText := ascii "event/a"
  query := [⟨ascii "value", ascii "&", ascii "value", ascii "%26", by repeat constructor,
      .escaped (by rfl) (by rfl) (by decide) (by decide) .nil⟩,
    ⟨ascii "qos", ascii "2", ascii "qos", ascii "2", by repeat constructor, by repeat constructor⟩]
  version := ascii "HTTP/1.1"
  headers := []
  body := []
  methodOk := by decide +kernel
  pathOk := by repeat constructor
  versionOk := version_current

def contentLengthOne : HeaderLine where
  name := ascii "Content-Length"
  value := ascii "1"
  beforeName := 0
  afterName := 0
  beforeValue := 1
  afterValue := 0
  nameOk := by decide +kernel
  nameTrimmed := by decide +kernel
  valueOk := by decide +kernel
  valueTrimmed := by decide +kernel
  lengthOk _ := by decide +kernel

/-- `POST /event/a?qos=2` with the body `&`. -/
def postAmpersand : RequestForm where
  method := ascii "POST"
  path := ascii "event/a"
  pathText := ascii "event/a"
  query := [⟨ascii "qos", ascii "2", ascii "qos", ascii "2", by repeat constructor,
    by repeat constructor⟩]
  version := ascii "HTTP/1.1"
  headers := [contentLengthOne]
  body := ascii "&"
  methodOk := by decide +kernel
  pathOk := by repeat constructor
  versionOk := version_current

/-- A value that has to be escaped in the query. -/
theorem simplePair_ampersand :
    SimplePair getAmpersand postAmpersand (ascii "event/") (ascii "a") (ascii "&") where
  getMethod := rfl
  getPath := rfl
  otherPath := rfl
  query := ⟨[], [(ascii "qos", ascii "2")], rfl, rfl, by decide⟩
  body := rfl
  getLength := rfl
  otherLength := by decide +kernel
  notChunked := by decide +kernel
  headers := by decide +kernel

/-- Both forms of the sample are answered alike. -/
theorem simple_form_ampersand :
    route {} quietSurroundings (oneEntry (ascii "b") 1) getAmpersand.request =
      route {} quietSurroundings (oneEntry (ascii "b") 1) postAmpersand.framed := by
  have hlimit : (ascii "&").length ≤ ({} : Config).maxBodyBytes := by decide
  obtain ⟨-, -, -, -, -, hroute⟩ :=
    simple_form_equivalent rfl simplePair_ampersand (.event rfl) hlimit
  exact hroute _ _

end Nshmqtt
