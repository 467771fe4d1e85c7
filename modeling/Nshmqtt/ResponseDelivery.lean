import Nshmqtt.ResponseReader
import Nshmqtt.RouteAccess

/-!
# What a client reads of an answer

`build_http_response` and `write_all` seen from the other end of the socket.  Nothing of
a request gets into the head of its answer, so a client reads back the status, the fields
and the body that the server meant, and nothing after them; and when the connection breaks
while the answer is written, it sees that the answer is not all there.

* `route_answerable` and `receive_answerable`: the heads that the server can send;
* `answer_read_back`: every answer is one well-formed response;
* `delivered_whole_or_not`: whatever the `send` calls do.
-/

namespace Nshmqtt

open ByteStrings DecimalText HttpReader

/-- The fields that `buildHttpResponse` writes. -/
def responseFields (resp : HttpResponse) (includeBody : Bool) : List (Bytes × Bytes) :=
  (if includeBody then [(ascii "Content-Type", contentTypeOf resp.format)] else []) ++
    [(ascii "Content-Length", decimalText resp.body.length),
      (ascii "Connection", ascii "close")] ++ resp.headers

/-- The response as a client sees it. -/
def wireResponse (resp : HttpResponse) (includeBody : Bool) : HttpReader.Response where
  status := resp.status
  reason := reasonPhrase resp.status
  fields := responseFields resp includeBody
  body := if includeBody then resp.body else []

/-- The text that the source builds is that of the wire form. -/
theorem buildHttpResponse_eq (resp : HttpResponse) (includeBody : Bool) :
    buildHttpResponse resp includeBody = responseText (wireResponse resp includeBody) := by
  have htype : ascii "Content-Type" ++ ascii ": " = ascii "Content-Type: " := rfl
  have hlength : ascii "Content-Length" ++ ascii ": " = ascii "Content-Length: " := rfl
  have hclose : ascii "Connection" ++ ascii ": " ++ ascii "close" = ascii "Connection: close" := rfl
  have hcrlf : crlf = lineEnd := rfl
  cases includeBody <;>
    simp only [buildHttpResponse, responseText, wireResponse, responseFields, fieldsText, statusLine,
      fieldLine, List.map_append, List.map_cons, List.map_nil, List.flatten_append,
      List.flatten_cons, List.flatten_nil, List.append_nil, ← htype, ← hlength, ← hclose, hcrlf,
      List.append_assoc, if_true, Bool.false_eq_true, if_false, List.nil_append]

/-- The headers that can be added to a response. -/
structure AddedHeader (header : Bytes × Bytes) : Prop where
  plain : PlainField header
  other : toLower header.1 ≠ ascii "content-length"

/-- A field is plain when its bytes are. -/
theorem plainField_ascii {name : String} {value : Bytes} (hname : ascii name ≠ [])
    (hbytes : (ascii name).all (fun c => c != 13 && c != colon) = true)
    (hvalue : value.all (· != 13) = true) (htrimmed : Trimmed (· == blank) value) :
    PlainField (ascii name, value) where
  name_ne_nil := hname
  name_bytes c hc := by
    have hboth := List.all_eq_true.mp hbytes c hc
    rwa [Bool.and_eq_true, bne_iff_ne, bne_iff_ne] at hboth
  value_bytes c hc := bne_iff_ne.mp (List.all_eq_true.mp hvalue c hc)
  value_trimmed := htrimmed

/-- A text that neither begins nor ends with a blank is trimmed. -/
theorem trimmed_of_ends {c d : UInt8} {s : Bytes} (hhead : s.head? = some c)
    (hlast : s.getLast? = some d) (hc : c ≠ blank) (hd : d ≠ blank) : Trimmed (· == blank) s := by
  constructor
  · intro e he
    rw [hhead] at he
    rw [← Option.some.inj he]
    exact beq_eq_false_iff_ne.mpr hc
  · intro e he
    rw [hlast] at he
    rw [← Option.some.inj he]
    exact beq_eq_false_iff_ne.mpr hd

theorem trimmed_of_all {s : Bytes} (h : ∀ c ∈ s, c ≠ blank) : Trimmed (· == blank) s :=
  ⟨fun c hc => beq_eq_false_iff_ne.mpr (h c (List.mem_of_mem_head? hc)),
    fun c hc => beq_eq_false_iff_ne.mpr (h c (List.mem_of_mem_getLast? hc))⟩

/-- Digits are no blanks and end no line. -/
theorem decimalText_bytes {n : Nat} {c : UInt8} (hc : c ∈ decimalText n) : c ≠ 13 ∧ c ≠ blank := by
  have hdigit := isdigit_of_mem_decimalText hc
  constructor
  · intro heq
    rw [heq] at hdigit
    exact absurd hdigit (by decide)
  · intro heq
    rw [heq] at hdigit
    exact absurd hdigit (by decide)

/-- The field for the type of the content. -/
theorem plainField_contentType (format : ResponseFormat) :
    PlainField (ascii "Content-Type", contentTypeOf format) := by
  cases format
  · exact plainField_ascii (by decide) rfl rfl
      (trimmed_of_ends (c := 97) (d := 110) rfl rfl (by decide) (by decide))
  · exact plainField_ascii (by decide) rfl rfl
      (trimmed_of_ends (c := 116) (d := 56) rfl rfl (by decide) (by decide))
  · exact plainField_ascii (by decide) rfl rfl
      (trimmed_of_ends (c := 116) (d := 56) rfl rfl (by decide) (by decide))

theorem plainField_contentLength (n : Nat) :
    PlainField (ascii "Content-Length", decimalText n) :=
  plainField_ascii (by decide) rfl
    (List.all_eq_true.mpr fun _ hc => bne_iff_ne.mpr (decimalText_bytes hc).1)
    (trimmed_of_all fun _ hc => (decimalText_bytes hc).2)

theorem plainField_connection : PlainField (ascii "Connection", ascii "close") :=
  plainField_ascii (by decide) rfl rfl
    (trimmed_of_ends (c := 99) (d := 101) rfl rfl (by decide) (by decide))

/-- A reason stays on its line. -/
theorem reasonPhrase_bytes (status : Nat) : ∀ c ∈ reasonPhrase status, c ≠ 13 := by
  have hplain : (reasonPhrase status).all (· != 13) = true := by
    unfold reasonPhrase
    split <;> rfl
  intro c hc
  exact bne_iff_ne.mp (List.all_eq_true.mp hplain c hc)

/-- Exactly the one length field announces the length of the body. -/
theorem bodyLengthField_responseFields {resp : HttpResponse}
    (hheaders : ∀ header ∈ resp.headers, AddedHeader header) (includeBody : Bool) :
    bodyLengthField (responseFields resp includeBody) = some resp.body.length := by
  have hothers : resp.headers.filter
      (fun field => decide (toLower field.1 = ascii "content-length")) = [] := by
    rw [List.filter_eq_nil_iff]
    intro header hheader
    rw [decide_eq_true_eq]
    exact (hheaders header hheader).other
  have hfilter : (responseFields resp includeBody).filter
      (fun field => decide (toLower field.1 = ascii "content-length")) =
        [(ascii "Content-Length", decimalText resp.body.length)] := by
    have htype : toLower (ascii "Content-Type") ≠ ascii "content-length" := by decide
    have hlength : toLower (ascii "Content-Length") = ascii "content-length" := by decide
    have hclose : toLower (ascii "Connection") ≠ ascii "content-length" := by decide
    rw [responseFields, List.filter_append, List.filter_append, hothers, List.append_nil,
      List.filter_cons_of_pos (by simpa using hlength),
      List.filter_cons_of_neg (by simpa using hclose), List.filter_nil]
    split_ifs
    · rw [List.filter_cons_of_neg (by simpa using htype), List.filter_nil, List.nil_append]
    · rfl
  have hdigits : (decimalText resp.body.length).all isdigit = true :=
    List.all_eq_true.mpr fun _ hc => isdigit_of_mem_decimalText hc
  unfold bodyLengthField
  rw [hfilter]
  simp only [decimalText_ne_nil, ne_eq, not_false_eq_true, hdigits, and_self, if_true,
    digitsValue_decimalText]

/-- **A response that can be sent** can be read. -/
theorem writable_wireResponse {resp : HttpResponse} (hstatus : 100 ≤ resp.status ∧ resp.status < 1000)
    (hheaders : ∀ header ∈ resp.headers, AddedHeader header) (includeBody : Bool) :
    Writable (wireResponse resp includeBody) (!includeBody) where
  status := hstatus
  reason := reasonPhrase_bytes _
  fields field hfield := by
    simp only [wireResponse, responseFields, List.mem_append, List.mem_cons, List.not_mem_nil,
      or_false] at hfield
    rcases hfield with (htype | rfl | rfl) | hadded
    · split_ifs at htype
      · rw [List.mem_singleton.mp htype]
        exact plainField_contentType _
      · exact absurd htype List.not_mem_nil
    · exact plainField_contentLength _
    · exact plainField_connection
    · exact (hheaders field hadded).plain
  length := by
    refine ⟨_, bodyLengthField_responseFields hheaders includeBody, ?_⟩
    cases includeBody <;> rfl

/-- The status codes that the server uses. -/
def usedStatuses : List Nat := [200, 400, 401, 404, 405, 411, 413, 502, 503, 504]

/-- The texts of the only header that a handler adds. -/
def allowTexts : List String := ["POST, GET", "POST", "PUT, DELETE, GET", "PUT, DELETE", "GET, HEAD"]

/-- A status of the list, and no header but the one that a 405 has. -/
structure Answerable (resp : HttpResponse) : Prop where
  status : resp.status ∈ usedStatuses
  headers : resp.headers = [] ∨
    resp.status = 405 ∧ ∃ allow ∈ allowTexts, resp.headers = [(ascii "Allow", ascii allow)]

namespace Answerable

theorem plain {resp : HttpResponse} {status : Nat} (hstatus : status ∈ usedStatuses)
    (heq : resp.status = status) (hheaders : resp.headers = []) : Answerable resp :=
  ⟨heq ▸ hstatus, .inl hheaders⟩

theorem jsonError {status : Nat} (hstatus : status ∈ usedStatuses) (message : String) :
    Answerable (jsonError status message) :=
  plain hstatus rfl rfl

theorem ok {resp : HttpResponse} (heq : resp.status = 200) (hheaders : resp.headers = []) :
    Answerable resp :=
  plain (by decide) heq hheaders

/-- A refused method comes with one `Allow`. -/
theorem methodNotAllowed {allow : String} (hallow : allow ∈ allowTexts) :
    Answerable (methodNotAllowed allow) where
  status := show 405 ∈ usedStatuses by decide
  headers := .inr ⟨rfl, allow, hallow, rfl⟩

/-- All statuses have three digits. -/
theorem status_range {resp : HttpResponse} (h : Answerable resp) :
    100 ≤ resp.status ∧ resp.status < 1000 := by
  have hall : usedStatuses.all (fun status => decide (100 ≤ status ∧ status < 1000)) = true := rfl
  exact of_decide_eq_true (List.all_eq_true.mp hall _ h.status)

/-- The texts of `Allow` are plain. -/
theorem plainField_allow {allow : String} (hallow : allow ∈ allowTexts) :
    PlainField (ascii "Allow", ascii allow) := by
  simp only [allowTexts, List.mem_cons, List.not_mem_nil, or_false] at hallow
  rcases hallow with rfl | rfl | rfl | rfl | rfl
  · exact plainField_ascii (by decide) rfl rfl
      (trimmed_of_ends (c := 80) (d := 84) rfl rfl (by decide) (by decide))
  · exact plainField_ascii (by decide) rfl rfl
      (trimmed_of_ends (c := 80) (d := 84) rfl rfl (by decide) (by decide))
  · exact plainField_ascii (by decide) rfl rfl
      (trimmed_of_ends (c := 80) (d := 84) rfl rfl (by decide) (by decide))
  · exact plainField_ascii (by decide) rfl rfl
      (trimmed_of_ends (c := 80) (d := 69) rfl rfl (by decide) (by decide))
  · exact plainField_ascii (by decide) rfl rfl
      (trimmed_of_ends (c := 71) (d := 68) rfl rfl (by decide) (by decide))

/-- Nothing but `Allow` is added. -/
theorem addedHeader {resp : HttpResponse} (h : Answerable resp) :
    ∀ header ∈ resp.headers, AddedHeader header := by
  intro header hheader
  rcases h.headers with hnone | ⟨-, allow, hallow, hone⟩
  · rw [hnone] at hheader
    exact absurd hheader List.not_mem_nil
  · rw [hone, List.mem_singleton] at hheader
    rw [hheader]
    have hother : toLower (ascii "Allow") ≠ ascii "content-length" := by decide
    exact ⟨plainField_allow hallow, hother⟩

theorem writable {resp : HttpResponse} (h : Answerable resp) (includeBody : Bool) :
    Writable (wireResponse resp includeBody) (!includeBody) :=
  writable_wireResponse h.status_range h.addedHeader includeBody

end Answerable

variable {cfg : Config} {env : Surroundings} {s : ServerState} {req : HttpRequest}

/-- The refusal of a payload is answerable. -/
theorem answerable_eventPayload {resp : HttpResponse} (h : eventPayload cfg req = .error resp) :
    Answerable resp := by
  unfold eventPayload at h
  by_cases hpost : req.method = ascii "POST"
  · rw [if_pos hpost] at h
    cases h
  · rw [if_neg hpost] at h
    by_cases hget : req.method = ascii "GET" ∧ cfg.simpleGet
    · rw [if_pos hget] at h
      cases hparam : findQueryParam req (ascii "value") with
      | none =>
          rw [hparam] at h
          exact Except.error.inj h ▸ Answerable.jsonError (by decide) _
      | some value =>
          rw [hparam] at h
          cases h
    · rw [if_neg hget] at h
      obtain rfl := Except.error.inj h
      apply Answerable.methodNotAllowed
      split_ifs <;> decide

/-- The refusal of a quality of service is answerable. -/
theorem answerable_eventQos {resp : HttpResponse} (h : eventQos cfg req = .error resp) :
    Answerable resp := by
  unfold eventQos at h
  split at h
  · cases h
  · split at h
    · exact Except.error.inj h ▸ Answerable.jsonError (by decide) _
    · split_ifs at h
      exact Except.error.inj h ▸ Answerable.jsonError (by decide) _

/-- The refusal of a retain flag is answerable. -/
theorem answerable_eventRetain {resp : HttpResponse} (h : eventRetain req = .error resp) :
    Answerable resp := by
  unfold eventRetain at h
  split at h
  · cases h
  · split at h
    · exact Except.error.inj h ▸ Answerable.jsonError (by decide) _
    · cases h

theorem answerable_eventCall {resp : HttpResponse} (h : eventCall cfg env req = .error resp) :
    Answerable resp := by
  unfold eventCall at h
  simp only [bind, Except.bind, pure, Except.pure, throw, throwThe, MonadExceptOf.throw] at h
  split_ifs at h with htopic
  · exact Except.error.inj h ▸ Answerable.jsonError (by decide) _
  · cases hpayload : eventPayload cfg req with
    | error e =>
        simp only [hpayload] at h
        exact Except.error.inj h ▸ answerable_eventPayload hpayload
    | ok payload =>
        simp only [hpayload] at h
        cases hqos : eventQos cfg req with
        | error e =>
            simp only [hqos] at h
            exact Except.error.inj h ▸ answerable_eventQos hqos
        | ok qos =>
            simp only [hqos] at h
            cases hretain : eventRetain req with
            | error e =>
                simp only [hretain] at h
                exact Except.error.inj h ▸ answerable_eventRetain hretain
            | ok retain =>
                simp only [hretain] at h
                cases h

/-- The answers for the outcomes of a publish call. -/
theorem answerable_eventOutcomeResponse (call : PublishCall) (outcome : PublishOutcome) :
    Answerable (eventOutcomeResponse call outcome) := by
  cases outcome with
  | ok => exact .ok rfl rfl
  | queueFull => exact .plain (show 503 ∈ usedStatuses by decide) rfl rfl
  | timeout => exact .plain (show 504 ∈ usedStatuses by decide) rfl rfl
  | failed => exact .plain (show 502 ∈ usedStatuses by decide) rfl rfl

/-- **The event route** is answerable. -/
theorem answerable_handleEvent : Answerable (handleEvent cfg env s req).1 := by
  unfold handleEvent
  cases hcall : eventCall cfg env req with
  | error resp => exact answerable_eventCall hcall
  | ok call => exact answerable_eventOutcomeResponse call _

/-- Deletions are answerable. -/
theorem answerable_handleMetricDelete (name : Bytes) :
    Answerable (handleMetricDelete cfg env s name).1 := by
  unfold handleMetricDelete
  simp only
  split_ifs
  · exact Answerable.jsonError (by decide) _
  · exact Answerable.ok rfl rfl

/-- **The metric route** is answerable. -/
theorem answerable_handleMetric : Answerable (handleMetric cfg env s req).1 := by
  have hrefused : ∀ message, Answerable (jsonError 400 message) :=
    fun message => Answerable.jsonError (by decide) message
  have hwrite : ∀ name value, Answerable (handleMetricWrite cfg env s name value).1 :=
    fun name value => Answerable.ok rfl rfl
  unfold handleMetric
  simp only
  split_ifs
  · exact hrefused _
  · exact answerable_handleMetricDelete _
  · cases putValue req with
    | none => exact hrefused _
    | some value => exact hwrite _ value
  · cases findQueryParam req (ascii "value") with
    | none => exact hrefused _
    | some valueText =>
        simp only
        cases parseDouble valueText with
        | none => exact hrefused _
        | some value => exact hwrite _ value
  · exact Answerable.methodNotAllowed (by decide)
  · exact Answerable.methodNotAllowed (by decide)

theorem answerable_healthResponse : Answerable (healthResponse cfg env s req) := by
  unfold healthResponse
  split_ifs <;> exact Answerable.ok rfl rfl

/-- **Every route.** -/
theorem route_answerable : Answerable (route cfg env s req).1 := by
  unfold route
  simp only
  split_ifs
  · exact Answerable.jsonError (by decide) _
  · exact answerable_handleEvent
  · exact answerable_handleMetric
  · exact Answerable.methodNotAllowed (by decide)
  · exact Answerable.jsonError (by decide) _
  · exact Answerable.ok rfl rfl
  · exact Answerable.ok rfl rfl
  · exact Answerable.methodNotAllowed (by decide)
  · exact answerable_healthResponse
  · exact Answerable.jsonError (by decide) _

/-- The connection brought the head of a `HEAD` request. -/
def AsksHead (cfg : Config) (socket : List Recv) : Prop :=
  ∃ raw rest req leftoverBody, readHttpHead cfg.maxRequestBytes socket = (.ok, raw, rest) ∧
    parseHttpRequest raw {} = some (req, leftoverBody) ∧ req.method = ascii "HEAD"

/-- A client asks for a head with `HEAD`. -/
theorem asksHead_iff {socket rest : List Recv} {raw leftoverBody : Bytes}
    (hhead : readHttpHead cfg.maxRequestBytes socket = (.ok, raw, rest))
    (hparse : parseHttpRequest raw {} = some (req, leftoverBody)) :
    AsksHead cfg socket ↔ req.method = ascii "HEAD" := by
  constructor
  · intro h
    obtain ⟨raw', rest', req', leftoverBody', hhead', hparse', hmethod⟩ := h
    rw [hhead, Prod.mk.injEq, Prod.mk.injEq] at hhead'
    rw [← hhead'.2.1, hparse, Option.some.injEq, Prod.mk.injEq] at hparse'
    rw [hparse'.1]
    exact hmethod
  · intro hmethod
    exact ⟨raw, rest, req, leftoverBody, hhead, hparse, hmethod⟩

/-- What a connection comes to is answered in the form that its method asks for. -/
def Received.Fits (cfg : Config) (socket : List Recv) : Received → Prop
  | .dropped _ => True
  | .rejected _ resp isHead => Answerable resp ∧ (isHead = true ↔ AsksHead cfg socket)
  | .request req => req.method = ascii "HEAD" ↔ AsksHead cfg socket

/-- The answer to a request with a body fits what was asked. -/
theorem receiveBody_fits {socket rest : List Recv} {leftoverBody : Bytes}
    (h : req.method = ascii "HEAD" ↔ AsksHead cfg socket) :
    (receiveBody req leftoverBody rest).Fits cfg socket := by
  unfold receiveBody
  simp only
  split_ifs
  · split
    · exact h
    · trivial
  · exact h

theorem receiveParsed_fits {socket rest : List Recv} {leftoverBody : Bytes}
    (h : req.method = ascii "HEAD" ↔ AsksHead cfg socket) :
    (receiveParsed cfg req leftoverBody rest).Fits cfg socket := by
  have hdecide : decide (req.method = ascii "HEAD") = true ↔ AsksHead cfg socket := by
    rw [decide_eq_true_eq]
    exact h
  unfold receiveParsed
  simp only
  split_ifs
  · exact ⟨Answerable.jsonError (by decide) _, hdecide⟩
  · exact ⟨Answerable.jsonError (by decide) _, hdecide⟩
  · exact receiveBody_fits h
  · exact h

/-- **Before the routes.** -/
theorem receive_fits (cfg : Config) (socket : List Recv) :
    (receive cfg socket).Fits cfg socket := by
  have hnot : (∀ raw rest, readHttpHead cfg.maxRequestBytes socket = (.ok, raw, rest) →
      parseHttpRequest raw {} = none) → ¬ AsksHead cfg socket := by
    intro h hasks
    obtain ⟨raw, rest, req, leftoverBody, hhead, hparse, -⟩ := hasks
    rw [h raw rest hhead] at hparse
    cases hparse
  unfold receive
  split
  · rename_i hlarge
    refine ⟨Answerable.jsonError (by decide) _, iff_of_false Bool.false_ne_true (hnot ?_)⟩
    intro raw rest hhead
    rw [hlarge] at hhead
    cases hhead
  · rename_i raw rest hhead
    cases hparse : parseHttpRequest raw {} with
    | none =>
        refine ⟨Answerable.jsonError (by decide) _, iff_of_false Bool.false_ne_true (hnot ?_)⟩
        intro raw' rest' hhead'
        rw [hhead, Prod.mk.injEq, Prod.mk.injEq] at hhead'
        rw [← hhead'.2.1]
        exact hparse
    | some parsed =>
        obtain ⟨req, leftoverBody⟩ := parsed
        exact receiveParsed_fits (asksHead_iff hhead hparse).symm
  · trivial

/-- The answer of a connection is built from a response of the server. -/
theorem exists_response {socket : List Recv} {bytes : Bytes}
    (h : (handleConnection cfg env s socket).1 = some bytes) :
    ∃ resp includeBody, Answerable resp ∧ (includeBody = false ↔ AsksHead cfg socket) ∧
      bytes = buildHttpResponse resp includeBody := by
  have hfits := receive_fits cfg socket
  unfold handleConnection at h
  cases hreceive : receive cfg socket with
  | dropped counted =>
      rw [hreceive] at h
      cases counted <;> cases h
  | rejected path resp isHead =>
      rw [hreceive] at h hfits
      obtain ⟨hresp, hhead⟩ := hfits
      refine ⟨resp, !isHead, hresp, ?_, (Option.some.inj h).symm⟩
      rw [Bool.not_eq_false', hhead]
  | request req =>
      rw [hreceive] at h hfits
      refine ⟨_, req.method != ascii "HEAD", route_answerable, ?_, (Option.some.inj h).symm⟩
      rw [bne_eq_false_iff_eq]
      exact hfits

/-- **Every answer is one response.**  Whatever the request was, the client reads a
status the server uses, the three fields with the length of the body and at most one
`Allow`, and the body unless it asked for the head alone, and then no byte is left. -/
theorem answer_read_back (cfg : Config) (env : Surroundings) (s : ServerState)
    (socket : List Recv) (bytes : Bytes) (h : (handleConnection cfg env s socket).1 = some bytes) :
    ∃ resp includeBody, Answerable resp ∧ (includeBody = false ↔ AsksHead cfg socket) ∧
      readResponse (!includeBody) bytes = some (wireResponse resp includeBody, []) := by
  obtain ⟨resp, includeBody, hresp, hhead, hbytes⟩ := exists_response h
  refine ⟨resp, includeBody, hresp, hhead, ?_⟩
  have hread := readResponse_text (hresp.writable includeBody) []
  rw [List.append_nil, ← buildHttpResponse_eq, ← hbytes] at hread
  exact hread

/-- A `HEAD` of the health route. -/
theorem answer_read_back_head : ∃ resp includeBody, Answerable resp ∧
    (includeBody = false ↔ AsksHead {} [.data (ascii "HEAD /health HTTP/1.1\r\n\r\n")]) ∧
    (handleConnection {} quietSurroundings (oneEntry (ascii "a") 1)
      [.data (ascii "HEAD /health HTTP/1.1\r\n\r\n")]).1.bind (readResponse (!includeBody)) =
        some (wireResponse resp includeBody, []) := by
  obtain ⟨bytes, hbytes⟩ : ∃ bytes, (handleConnection {} quietSurroundings (oneEntry (ascii "a") 1)
      [.data (ascii "HEAD /health HTTP/1.1\r\n\r\n")]).1 = some bytes :=
    Option.isSome_iff_exists.mp (by decide +kernel)
  obtain ⟨resp, includeBody, hresp, hhead, hread⟩ := answer_read_back _ _ _ _ bytes hbytes
  refine ⟨resp, includeBody, hresp, hhead, ?_⟩
  rw [hbytes, Option.bind_some, hread]

/-- What one `send` call does. -/
inductive Send
  | sent (n : Nat)
  /-- A signal came first. -/
  | interrupted
  | failed

/-- The bytes that went out, and the result of `write_all`; without a result the next
`send` call is still blocked. -/
def writeAll (data : Bytes) (sends : List Send) : Bytes × Option Bool :=
  if data = [] then ([], some true)
  else
    match sends with
    | [] => ([], none)
    | .interrupted :: rest => writeAll data rest
    | .failed :: _ => ([], some false)
    | .sent n :: rest =>
        let (out, result) := writeAll (data.drop n) rest
        (data.take n ++ out, result)

/-- What goes out is a start of the data, all of it exactly if `write_all` succeeds. -/
theorem writeAll_spec (data : Bytes) (sends : List Send) :
    (writeAll data sends).1 <+: data ∧
      ((writeAll data sends).2 = some true ↔ (writeAll data sends).1 = data) := by
  induction sends generalizing data with
  | nil =>
      rw [writeAll.eq_def]
      split_ifs with hdata
      · rw [hdata]
        exact ⟨List.nil_prefix, by simp⟩
      · exact ⟨List.nil_prefix, by simp [Ne.symm hdata]⟩
  | cons send sends ih =>
      rw [writeAll.eq_def]
      split_ifs with hdata
      · rw [hdata]
        exact ⟨List.nil_prefix, by simp⟩
      · cases send with
        | interrupted => exact ih data
        | failed => exact ⟨List.nil_prefix, by simp [Ne.symm hdata]⟩
        | sent n =>
            obtain ⟨hstart, hwhole⟩ := ih (data.drop n)
            constructor
            · have hadded := (List.prefix_append_right_inj (data.take n)).mpr hstart
              rwa [List.take_append_drop] at hadded
            · simp only [hwhole]
              constructor
              · intro h
                rw [h, List.take_append_drop]
              · intro h
                have hsplit := List.take_append_drop n data
                exact List.append_cancel_left (h.trans hsplit.symm)

/-- **The whole answer or none.**  Whatever the `send` calls of an answer do, the client
reads the response if `write_all` succeeded, and otherwise sees that bytes are missing. -/
theorem delivered_whole_or_not (cfg : Config) (env : Surroundings) (s : ServerState)
    (socket : List Recv) (bytes : Bytes) (h : (handleConnection cfg env s socket).1 = some bytes)
    (sends : List Send) :
    ∃ resp includeBody, Answerable resp ∧ (includeBody = false ↔ AsksHead cfg socket) ∧
      readResponse (!includeBody) (writeAll bytes sends).1 =
        if (writeAll bytes sends).2 = some true then some (wireResponse resp includeBody, [])
        else none := by
  obtain ⟨resp, includeBody, hresp, hhead, hbytes⟩ := exists_response h
  refine ⟨resp, includeBody, hresp, hhead, ?_⟩
  rw [buildHttpResponse_eq] at hbytes
  subst hbytes
  obtain ⟨hstart, hwhole⟩ := writeAll_spec (responseText (wireResponse resp includeBody)) sends
  split_ifs with hsent
  · have hread := readResponse_text (hresp.writable includeBody) []
    rwa [List.append_nil, ← hwhole.mp hsent] at hread
  · apply readResponse_of_proper_prefix (hresp.writable includeBody) hstart
    exact fun heq => hsent (hwhole.mpr heq)

/-- A connection that breaks after twenty bytes. -/
theorem delivered_twenty_bytes : ∃ resp includeBody, Answerable resp ∧
    (includeBody = false ↔ AsksHead {} [.data (ascii "HEAD /health HTTP/1.1\r\n\r\n")]) ∧
    ∃ bytes, (handleConnection {} quietSurroundings (oneEntry (ascii "a") 1)
        [.data (ascii "HEAD /health HTTP/1.1\r\n\r\n")]).1 = some bytes ∧
      readResponse (!includeBody) (writeAll bytes [.sent 20, .interrupted, .failed]).1 =
        if (writeAll bytes [.sent 20, .interrupted, .failed]).2 = some true then
          some (wireResponse resp includeBody, [])
        else none := by
  obtain ⟨bytes, hbytes⟩ : ∃ bytes, (handleConnection {} quietSurroundings (oneEntry (ascii "a") 1)
      [.data (ascii "HEAD /health HTTP/1.1\r\n\r\n")]).1 = some bytes :=
    Option.isSome_iff_exists.mp (by decide +kernel)
  obtain ⟨resp, includeBody, hresp, hhead, hread⟩ := delivered_whole_or_not _ _ _ _ bytes hbytes
    [.sent 20, .interrupted, .failed]
  exact ⟨resp, includeBody, hresp, hhead, bytes, hbytes, hread⟩

end Nshmqtt
