import Nshmqtt.ListenerSetup
import Nshmqtt.RequestSegmentation
import Nshmqtt.ResponseDelivery

/-!
# The health check

`main.cpp`'s `check_health`, the client in the same binary: it asks a running server for `/health`
and looks at the first bytes of the answer.  It calls `read` once, so what it says depends on how
much of the answer that call brings.

* `checkHealth_ok_iff` : the check succeeds exactly when every call did and the answer starts with
  the status 200;
* `health_check_of_server` : the server gives its request such an answer, however the request
  arrives, and the check then succeeds exactly when the `read` brings twelve bytes.
-/

namespace Nshmqtt

open ByteStrings DecimalText

/-- What the calls of `check_health` return; an error has the text of `strerror`. -/
structure HealthCalls where
  socket : Option Bytes
  connect : Option Bytes
  write : Option Bytes
  /-- Nothing is read at the end of the connection. -/
  read : Except Bytes Bytes

/-- `kRequest`. -/
def healthRequest : Bytes :=
  ascii "GET /health HTTP/1.1\r\nHost: localhost\r\nConnection: close\r\n\r\n"

/-- The room in `buf`, less the place of the final NUL. -/
def healthBufferSize : Nat := 63

def healthyStart : Bytes := ascii "HTTP/1.1 200"

def healthCall (error : Option Bytes) (message : Bytes → Bytes) : Except Bytes Unit :=
  match error with
  | none => .ok ()
  | some text => .error (message text)

def firstLine (line : Bytes) : Bytes :=
  match find line crlf 0 with
  | none => line
  | some stop => line.take stop

/-- What is said of the bytes read; `buf` is used as a C string. -/
def checkAnswer (answer : Bytes) : Except Bytes Unit :=
  if answer = [] then .error (ascii "connection closed with no response")
  else
    let buf := cString (answer.take healthBufferSize)
    if startsWith buf healthyStart then .ok ()
    else .error (ascii "unexpected response: " ++ firstLine buf)

/-- Connect to the port, if one is given, and else to the path. -/
def connectHealth (socketPath : Bytes) (tcpPort : Int) (calls : HealthCalls) : Except Bytes Unit :=
  if tcpPort ≠ 0 then
    healthCall calls.connect
      (ascii "connect to 127.0.0.1:" ++ integerText tcpPort ++ ascii " failed: " ++ ·)
  else if ListenerSetup.sunPathSize ≤ socketPath.length then
    .error (ascii "socket path too long: " ++ socketPath)
  else healthCall calls.connect (ascii "connect to " ++ socketPath ++ ascii " failed: " ++ ·)

def checkHealth (socketPath : Bytes) (tcpPort : Int) (calls : HealthCalls) :
    Except Bytes Unit := do
  healthCall calls.socket (ascii "socket() failed: " ++ ·)
  connectHealth socketPath tcpPort calls
  healthCall calls.write (ascii "write failed: " ++ ·)
  match calls.read with
  | .error text => .error (ascii "read failed: " ++ text)
  | .ok answer => checkAnswer answer

/-- Every call succeeds, and the answer is read. -/
structure Connected (socketPath : Bytes) (tcpPort : Int) (calls : HealthCalls) (answer : Bytes) :
    Prop where
  socket : calls.socket = none
  path : tcpPort = 0 → socketPath.length < ListenerSetup.sunPathSize
  connect : calls.connect = none
  write : calls.write = none
  read : calls.read = .ok answer

variable {socketPath answer : Bytes} {tcpPort : Int} {calls : HealthCalls}

/-- A call succeeds when it reports no error. -/
theorem healthCall_ok_iff {error : Option Bytes} {message : Bytes → Bytes} :
    healthCall error message = .ok () ↔ error = none := by
  cases error <;> simp [healthCall]

/-- The connection is made when the path of the socket fits and `connect` succeeds. -/
theorem connectHealth_ok_iff : connectHealth socketPath tcpPort calls = .ok () ↔
    (tcpPort = 0 → socketPath.length < ListenerSetup.sunPathSize) ∧ calls.connect = none := by
  unfold connectHealth
  split_ifs with hport hlong
  · simp [healthCall_ok_iff, hport]
  · simp [not_not.mp hport, Nat.not_lt.mpr hlong]
  · simp [healthCall_ok_iff, not_not.mp hport, Nat.not_le.mp hlong]

theorem bind_eq_ok_iff {first : Except Bytes Unit} {next : Unit → Except Bytes Unit} :
    first >>= next = .ok () ↔ first = .ok () ∧ next () = .ok () := by
  cases first <;> simp [bind, Except.bind]

/-- The answer decides once it is read. -/
theorem checkHealth_of_connected (h : Connected socketPath tcpPort calls answer) :
    checkHealth socketPath tcpPort calls = checkAnswer answer := by
  have hsocket := fun message => (@healthCall_ok_iff calls.socket message).mpr h.socket
  have hwrite := fun message => (@healthCall_ok_iff calls.write message).mpr h.write
  have hconnect := connectHealth_ok_iff.mpr ⟨h.path, h.connect⟩
  rw [checkHealth, hsocket, hconnect, hwrite, h.read]
  rfl

/-- The start of an answer is on its first line. -/
theorem prefix_takeWhile_iff {p : UInt8 → Bool} {start s : Bytes} (hstart : start.all p = true) :
    start <+: s.takeWhile p ↔ start <+: s := by
  constructor
  · exact fun h => h.trans (List.takeWhile_prefix p)
  · intro h
    obtain ⟨rest, rfl⟩ := h
    rw [List.takeWhile_append_of_pos (List.all_eq_true.mp hstart)]
    exact List.prefix_append _ _

/-- The answer is accepted when it begins with a healthy status line. -/
theorem checkAnswer_ok_iff : checkAnswer answer = .ok () ↔ healthyStart <+: answer := by
  have hbuf : startsWith (cString (answer.take healthBufferSize)) healthyStart = true ↔
      healthyStart <+: answer := by
    rw [startsWith, List.isPrefixOf_iff_prefix, cString, prefix_takeWhile_iff (by decide +kernel),
      List.prefix_take_iff]
    exact and_iff_left (by decide +kernel)
  unfold checkAnswer
  by_cases hempty : answer = []
  · rw [if_pos hempty, hempty]
    exact iff_of_false (fun h => by cases h) (by decide +kernel)
  · rw [if_neg hempty]
    by_cases hstart : healthyStart <+: answer
    · exact iff_of_true (if_pos (hbuf.mpr hstart)) hstart
    · refine iff_of_false ?_ hstart
      simp only [mt hbuf.mp hstart]
      exact fun h => by cases h

/-- **What a success means**: the calls succeeded, and the answer starts with the status 200. -/
theorem checkHealth_ok_iff : checkHealth socketPath tcpPort calls = .ok () ↔
    ∃ answer, Connected socketPath tcpPort calls answer ∧ healthyStart <+: answer := by
  constructor
  · intro h
    rw [checkHealth, bind_eq_ok_iff, bind_eq_ok_iff, bind_eq_ok_iff, healthCall_ok_iff,
      healthCall_ok_iff, connectHealth_ok_iff] at h
    obtain ⟨hsocket, ⟨hpath, hconnect⟩, hwrite, hanswer⟩ := h
    cases hread : calls.read with
    | error text =>
        rw [hread] at hanswer
        cases hanswer
    | ok answer =>
        rw [hread] at hanswer
        exact ⟨answer, ⟨hsocket, hpath, hconnect, hwrite, hread⟩, checkAnswer_ok_iff.mp hanswer⟩
  · intro h
    obtain ⟨answer, hconnected, hstart⟩ := h
    rw [checkHealth_of_connected hconnected]
    exact checkAnswer_ok_iff.mpr hstart

/-- In fewer than twelve bytes there is no status. -/
theorem checkAnswer_short {n : Nat} (hn : n < 12) :
    checkAnswer (healthyStart.take n) = .error (if n = 0 then
      ascii "connection closed with no response"
    else ascii "unexpected response: " ++ healthyStart.take n) := by
  have hall : ∀ n < 12, (match checkAnswer (healthyStart.take n) with
      | .ok _ => none
      | .error text => some text) = some (if n = 0 then ascii "connection closed with no response"
        else ascii "unexpected response: " ++ healthyStart.take n) := by
    decide +kernel
  have hthis := hall n hn
  cases hanswer : checkAnswer (healthyStart.take n) with
  | ok result =>
      rw [hanswer] at hthis
      cases hthis
  | error text =>
      rw [hanswer] at hthis
      rw [Option.some.inj hthis]

/-- How much of a healthy answer is read decides. -/
theorem checkAnswer_take (hstart : healthyStart <+: answer) (n : Nat) :
    checkAnswer (answer.take n) = if 12 ≤ n then .ok ()
      else .error (if n = 0 then ascii "connection closed with no response"
        else ascii "unexpected response: " ++ answer.take n) := by
  split_ifs with hn hzero
  · exact checkAnswer_ok_iff.mpr (List.prefix_take_iff.mpr ⟨hstart, hn⟩)
  all_goals
    obtain ⟨rest, rfl⟩ := hstart
    have htake : (healthyStart ++ rest).take n = healthyStart.take n :=
      List.take_append_of_le_length (by rw [show healthyStart.length = 12 by decide +kernel]; omega)
    rw [htake, checkAnswer_short (by omega)]
    simp only [hzero, if_true, if_false]

variable {cfg : Config} {env : Surroundings} {s : ServerState}

/-- The request of the check as the server gets it. -/
def healthStream : RequestStream where
  bytes := healthRequest
  headStop := healthRequest.length - 4
  complete := by decide +kernel
  announced := by decide +kernel

/-- **However it arrives**, the server reads the request of the check. -/
theorem receive_healthRequest (hmax : 256 ≤ cfg.maxRequestBytes) {segments : List Segment}
    (hsent : joined segments = healthRequest) :
    ∃ req, receive cfg (recvs segments) = .request req ∧ req.method = ascii "GET" ∧
      req.path = ascii "/health" := by
  have hlimits : WithinLimits cfg healthStream := by
    refine .inr ⟨(Nat.min_le_right _ _).trans (le_trans (by decide +kernel) hmax), fun h => ?_⟩
    decide +kernel
  have hlength : ¬ cfg.maxRequestBytes < healthStream.headLength :=
    Nat.not_lt.mpr (le_trans (by decide +kernel) hmax)
  have hparse : ∃ parsed, parseHttpRequest healthStream.head {} = some parsed ∧
      parsed.1.method = ascii "GET" ∧ parsed.1.path = ascii "/health" ∧
        parsed.1.chunked = false ∧ parsed.1.contentLength = -1 := by
    have hany : (parseHttpRequest healthStream.head {}).any (fun parsed =>
        parsed.1.method = ascii "GET" ∧ parsed.1.path = ascii "/health" ∧
          parsed.1.chunked = false ∧ parsed.1.contentLength = -1) = true := by
      decide +kernel
    obtain ⟨parsed, hparse, hfields⟩ := Option.any_eq_true _ _ |>.mp hany
    exact ⟨parsed, hparse, of_decide_eq_true hfields⟩
  obtain ⟨⟨req, leftover⟩, hparse, hmethod, hpath, hchunked, hcontent⟩ := hparse
  refine ⟨req, ?_, hmethod, hpath⟩
  rw [RequestStream.receive_eq_outcome hlimits hsent, RequestStream.outcome, if_neg hlength, hparse]
  dsimp only at hchunked hcontent
  have hnone : ¬ 0 < req.contentLength := by omega
  simp only [receiveParsed, hchunked, hnone, Bool.false_eq_true, if_false, false_and]

/-- The route of `/health`, which changes nothing. -/
theorem route_health {req : HttpRequest} (hget : req.method = ascii "GET")
    (hpath : req.path = ascii "/health") :
    route cfg env s req = (healthResponse cfg env s req, s) := by
  have hread : isRead req = true := by simp [isRead, hget]
  have hneeds : needsAuth (ascii "/health") = false := by decide +kernel
  have hevent : isEventPath (ascii "/health") = false := by decide +kernel
  have hmetric : isMetricPath (ascii "/health") = false := by decide +kernel
  have hother : ascii "/health" ≠ ascii "/metrics" ∧ ascii "/health" ≠ ascii "/metrics-state" := by
    decide +kernel
  unfold route
  simp [hpath, hread, hneeds, hevent, hmetric, hother]

/-- The status of a health check does not depend on the state of the server. -/
theorem status_health (req : HttpRequest) : (healthResponse cfg env s req).status = 200 := by
  unfold healthResponse
  split <;> rfl

/-- The answer starts with its status. -/
theorem answer_startsHealthy {resp : HttpResponse} (h : resp.status = 200) (includeBody : Bool) :
    healthyStart <+: buildHttpResponse resp includeBody := by
  have hstart : healthyStart = ascii "HTTP/1.1 " ++ decimalText 200 := by decide +kernel
  unfold buildHttpResponse
  rw [h, hstart]
  simp only [List.append_assoc]
  rw [List.prefix_append_right_inj]
  exact List.prefix_append _ _

/-- **The check of a server that runs**, for any state of it and any segments of the request: it
changes nothing but the counters, and the check succeeds exactly when its `read` brings the first
twelve bytes of the answer. -/
theorem health_check_of_server (hmax : 256 ≤ cfg.maxRequestBytes) (env : Surroundings)
    (s : ServerState) {segments : List Segment} (hsent : joined segments = healthRequest) :
    ∃ bytes t, handleConnection cfg env s (recvs segments) = (some bytes, t) ∧
      t.store = s.store ∧ t.files = s.files ∧ t.publishCalls = s.publishCalls ∧
      ∀ (socketPath : Bytes) (tcpPort : Int) (calls : HealthCalls) (n : Nat),
        Connected socketPath tcpPort calls (bytes.take n) →
          checkHealth socketPath tcpPort calls =
            if 12 ≤ n then .ok ()
            else .error (if n = 0 then ascii "connection closed with no response"
              else ascii "unexpected response: " ++ bytes.take n) := by
  obtain ⟨req, hreceive, hmethod, hpath⟩ := receive_healthRequest hmax hsent
  have hanswer : handleConnection cfg env s (recvs segments) =
      (some (buildHttpResponse (healthResponse cfg env (s.recordRequest req.path) req)
          (req.method != ascii "HEAD")),
        (s.recordRequest req.path).recordResponse 200) := by
    rw [handleConnection, hreceive]
    dsimp only
    rw [route_health hmethod hpath, status_health]
  refine ⟨_, _, hanswer, rfl, rfl, rfl, ?_⟩
  intro socketPath tcpPort calls n hconnected
  rw [checkHealth_of_connected hconnected]
  exact checkAnswer_take (answer_startsHealthy (status_health req) _) n

/-- The request in one piece. -/
def wholeRequest : Segment := ⟨healthRequest, by decide +kernel, by decide +kernel⟩

/-- A check of a server with one entry; its `read` brings as much as there is room for. -/
theorem health_check_of_server_whole : ∃ bytes t,
    handleConnection {} quietSurroundings (oneEntry (ascii "a") 1) (recvs [wholeRequest]) =
        (some bytes, t) ∧
      checkHealth (ascii "/run/nshmqtt/nshmqtt.sock") 0
        ⟨none, none, none, .ok (bytes.take healthBufferSize)⟩ = .ok () := by
  obtain ⟨bytes, t, hanswer, -, -, -, hchecks⟩ := @health_check_of_server {} (by decide)
    quietSurroundings (oneEntry (ascii "a") 1) [wholeRequest] (by decide +kernel)
  refine ⟨bytes, t, hanswer, ?_⟩
  rw [hchecks _ _ _ healthBufferSize ⟨rfl, fun _ => by decide +kernel, rfl, rfl, rfl⟩]
  rfl

end Nshmqtt
