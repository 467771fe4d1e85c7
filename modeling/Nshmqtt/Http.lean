import Nshmqtt.JsonUtil

/-!
# HTTP requests and responses

`http.cpp`: reading a head and a body from a socket, parsing the request, and
building the response.  A socket is the list of the results its `poll` and
`recv` calls will have; one element is one turn of the reading loop.
-/

namespace Nshmqtt

open ByteStrings DecimalText

inductive ReadResult
  | ok
  | tooLarge
  | connectionClosed
  | timeout
  | ioError
  deriving DecidableEq

/-- What one turn of the reading loop gets from the socket. -/
inductive Recv
  | data (chunk : Bytes)
  /-- `recv` returned zero. -/
  | closed
  /-- The deadline passed. -/
  | timedOut
  /-- `poll` or `recv` was interrupted by a signal. -/
  | interrupted
  | failed
  deriving DecidableEq

/-- Read until `done` holds of the buffer or the buffer exceeds `maxBytes`; the
rest of the socket is returned too.  Nothing more on the socket is silence up
to the deadline. -/
def readUntil (maxBytes : Nat) (done : Bytes → Bool) : Bytes → List Recv →
    ReadResult × Bytes × List Recv
  | out, [] => (if done out then .ok else .timeout, out, [])
  | out, recv :: rest =>
      if done out then (.ok, out, recv :: rest)
      else
        match recv with
        | .data chunk =>
            if (out ++ chunk).length > maxBytes then (.tooLarge, out ++ chunk, rest)
            else readUntil maxBytes done (out ++ chunk) rest
        | .closed => (.connectionClosed, out, rest)
        | .timedOut => (.timeout, out, rest)
        | .interrupted => readUntil maxBytes done out rest
        | .failed => (.ioError, out, rest)

def crlf : Bytes := [13, 10]

/-- The blank line that ends the head. -/
def headEnd : Bytes := crlf ++ crlf

def readHttpHead (maxBytes : Nat) (socket : List Recv) : ReadResult × Bytes × List Recv :=
  readUntil maxBytes (fun s => contains s headEnd) [] socket

def readHttpBody (needBytes : Nat) (body : Bytes) (socket : List Recv) :
    ReadResult × Bytes × List Recv :=
  let target := body.length + needBytes
  readUntil target (fun s => target ≤ s.length) body socket

/-- A parsed request; a length of `-1` means that there was no Content-Length. -/
structure HttpRequest where
  method : Bytes := []
  path : Bytes := []
  query : List (Bytes × Bytes) := []
  accept : Bytes := []
  contentType : Bytes := []
  contentLength : Int := -1
  chunked : Bool := false
  authToken : Bytes := []
  qosHeader : Bytes := []
  retainHeader : Bytes := []
  body : Bytes := []
  deriving DecidableEq

def percentDecode : Bytes → Option Bytes
  | [] => some []
  | c :: rest =>
      if c = plus then (percentDecode rest).map (blank :: ·)
      else if c = 37 then
        match rest with
        | h :: l :: rest' =>
            match hexValue h, hexValue l with
            | some hi, some lo =>
                let decoded := UInt8.ofNat (hi <<< 4 ||| lo)
                if decoded = 0 then none else (percentDecode rest').map (decoded :: ·)
            | _, _ => none
        | _ => none
      else if c < 0x20 ∨ c = 0x7f then none
      else (percentDecode rest).map (c :: ·)

def trimSpaces (s : Bytes) : Bytes := trimBoth (· == blank) s

/-- Method and target of a request line. -/
def parseRequestLine (line : Bytes) : Option (Bytes × Bytes) := do
  let sp1 ← find line [blank] 0
  let sp2 ← find line [blank] (sp1 + 1)
  let method := substr line 0 sp1
  let target := substr line (sp1 + 1) (sp2 - sp1 - 1)
  let version := line.drop (sp2 + 1)
  if version ≠ ascii "HTTP/1.1" ∧ version ≠ ascii "HTTP/1.0" then none
  else if method = [] ∨ target = [] ∨ target.head? ≠ some slash then none
  else if method.all isupper then some (method, target)
  else none

/-- The value of a Content-Length header, when it is well formed. -/
def parseContentLength (value : Bytes) : Option Int := do
  let v ← accepted (strtol 10 (cString value))
  if v < 0 then none else some v

/-- Take over one header line. -/
def applyHeader (req : HttpRequest) (headerLine : Bytes) : Option HttpRequest :=
  match find headerLine [colon] 0 with
  | none => some req
  | some i =>
      let name := toLower (trimSpaces (substr headerLine 0 i))
      let value := trimSpaces (headerLine.drop (i + 1))
      if name = ascii "accept" then some { req with accept := value }
      else if name = ascii "content-type" then some { req with contentType := value }
      else if name = ascii "content-length" then
        (parseContentLength value).map fun v => { req with contentLength := v }
      else if name = ascii "transfer-encoding" then
        if contains (toLower value) (ascii "chunked") then some { req with chunked := true }
        else some req
      else if name = ascii "x-mqtt-api-key" then some { req with authToken := value }
      else if name = ascii "x-mqtt-qos" then some { req with qosHeader := value }
      else if name = ascii "x-mqtt-retain" then some { req with retainHeader := value }
      else some req

/-- The scan of the header lines from `pos` up to `limit`. -/
def scanHeaders (raw : Bytes) (limit pos : Nat) (req : HttpRequest) : Option HttpRequest :=
  if pos < limit then
    match _hfound : find raw crlf pos with
    | none => some req
    | some next =>
        if next > limit then some req
        else
          match applyHeader req (substr raw pos (next - pos)) with
          | none => none
          | some req' => scanHeaders raw limit (next + 2) req'
  else some req
  termination_by limit - pos
  decreasing_by
    have := (find_length _hfound).1
    omega

/-- One `key=value` pair of the query. -/
def parsePair (pair : Bytes) : Option (Bytes × Bytes) := do
  let (kEnc, vEnc) :=
    match find pair (ascii "=") 0 with
    | none => (pair, [])
    | some eq => (substr pair 0 eq, pair.drop (eq + 1))
  let k ← percentDecode kEnc
  let v ← percentDecode vEnc
  return (k, v)

/-- The pairs of a query; empty ones are passed over. -/
def parseQuery (queryEnc : Bytes) : Option (List (Bytes × Bytes)) :=
  ((queryEnc.splitOn 38).filter (· ≠ [])).mapM parsePair

/-- Path and query of a request target. -/
def splitTarget (target : Bytes) : Bytes × Bytes :=
  match find target (ascii "?") 0 with
  | none => (target, [])
  | some qpos => (substr target 0 qpos, target.drop (qpos + 1))

/-- The request in `raw` and the bytes after its head.  Of the record passed in,
the overrides for qos and retain are kept where the head has none. -/
def parseHttpRequest (raw : Bytes) (prior : HttpRequest) : Option (HttpRequest × Bytes) := do
  let lineEnd ← find raw crlf 0
  let (method, target) ← parseRequestLine (substr raw 0 lineEnd)
  let start : HttpRequest :=
    { method := method, path := prior.path, query := prior.query,
      qosHeader := prior.qosHeader, retainHeader := prior.retainHeader }
  let headerEnd := find raw headEnd lineEnd
  let req ← scanHeaders raw (headerEnd.getD raw.length) (lineEnd + 2) start
  let leftoverBody :=
    match headerEnd with
    | none => []
    | some i => raw.drop (i + 4)
  let path ← percentDecode (splitTarget target).1
  let query ← parseQuery (splitTarget target).2
  return ({ req with path := path, query := query }, leftoverBody)

def findQueryParam (req : HttpRequest) (key : Bytes) : Option Bytes :=
  (req.query.find? fun kv => kv.1 = key).map Prod.snd

/-- One turn of the scan. -/
theorem scanHeaders_eq (raw : Bytes) (limit pos : Nat) (req : HttpRequest) :
    scanHeaders raw limit pos req =
      if pos < limit then
        match find raw crlf pos with
        | none => some req
        | some next =>
            if next > limit then some req
            else
              (applyHeader req (substr raw pos (next - pos))).bind fun req' =>
                scanHeaders raw limit (next + 2) req'
      else some req := by
  rw [scanHeaders]
  split
  · split
    · rename_i hfound
      rw [hfound]
    · rename_i next hfound
      rw [hfound]
      dsimp only
      split
      · rfl
      · cases applyHeader req (substr raw pos (next - pos)) with
        | none => rfl
        | some req' => rfl
  · rfl

/-- The scan reads only up to the line end at its limit. -/
theorem scanHeaders_take {raw : Bytes} {limit n : Nat} (hlimit : limit ≤ raw.length)
    (hend : crlf <+: raw.drop limit) (hn : limit + crlf.length ≤ n) (pos : Nat)
    (req : HttpRequest) :
    scanHeaders (raw.take n) limit pos req = scanHeaders raw limit pos req := by
  induction h : limit - pos using Nat.strongRecOn generalizing pos req with
  | _ d ih =>
      rw [scanHeaders_eq, scanHeaders_eq raw]
      split_ifs with hpos
      · obtain ⟨next, hnext, hle⟩ := exists_find_le (Nat.le_of_lt hpos) hlimit hend
        have hfrom := (find_length hnext).1
        have hnext' : find (raw.take n) crlf pos = some next := (find_take (by omega)).mpr hnext
        rw [hnext, hnext']
        dsimp only
        rw [if_neg (by omega), if_neg (by omega), substr_take (by omega)]
        cases applyHeader req (substr raw pos (next - pos)) with
        | none => rfl
        | some req' => exact ih (limit - (next + 2)) (by omega) (next + 2) req' rfl
      · rfl

/-- **The head decides.**  A parse depends on the bytes up to the first blank line
alone; the rest is left over. -/
theorem parseHttpRequest_take {raw : Bytes} {i : Nat} (hend : find raw headEnd 0 = some i)
    (prior : HttpRequest) :
    parseHttpRequest raw prior =
      (parseHttpRequest (raw.take (i + headEnd.length)) prior).map
        fun parsed => (parsed.1, raw.drop (i + headEnd.length)) := by
  have hlength := (find_length hend).2
  obtain ⟨-, hi, hpre, hfirst⟩ := find_eq_some_iff.mp hend
  have hcrlf : crlf <+: raw.drop i := (List.prefix_append crlf crlf).trans hpre
  obtain ⟨lineEnd, hline, hle⟩ := exists_find_le (Nat.zero_le i) hi hcrlf
  have hline' : find (raw.take (i + headEnd.length)) crlf 0 = some lineEnd :=
    (find_take (by simp only [headEnd, List.length_append]; omega)).mpr hline
  have hend' : find raw headEnd lineEnd = some i :=
    find_eq_some_iff.mpr ⟨hle, hi, hpre, fun j _ hj => hfirst j (Nat.zero_le j) hj⟩
  have hend'' : find (raw.take (i + headEnd.length)) headEnd lineEnd = some i :=
    (find_take (Nat.le_refl _)).mpr hend'
  have hscan := scanHeaders_take hi hcrlf
    (show i + crlf.length ≤ i + headEnd.length by
      simp only [headEnd, List.length_append]
      omega)
  unfold parseHttpRequest
  simp only [hline, hline', hend', hend'', Option.bind_eq_bind, Option.bind_some,
    Option.getD_some, hscan]
  rw [substr_take (by omega)]
  cases parseRequestLine (substr raw 0 lineEnd) with
  | none => rfl
  | some line =>
      simp only [Option.bind_some]
      cases scanHeaders raw i (lineEnd + 2)
          { method := line.1, path := prior.path, query := prior.query,
            qosHeader := prior.qosHeader, retainHeader := prior.retainHeader } with
      | none => rfl
      | some req =>
          cases percentDecode (splitTarget line.2).1 with
          | none => rfl
          | some path =>
              cases parseQuery (splitTarget line.2).2 with
              | none => rfl
              | some query => rfl

inductive ResponseFormat
  | json
  | text
  | prometheus
  deriving DecidableEq

def acceptWantsJson (acceptHeader : Bytes) : Bool :=
  contains (toLower acceptHeader) (ascii "application/json")

structure HttpResponse where
  status : Nat := 200
  format : ResponseFormat := .json
  headers : List (Bytes × Bytes) := []
  body : Bytes := []
  deriving DecidableEq

/-- The reason phrase of a status code. -/
def reasonPhrase (status : Nat) : Bytes :=
  match status with
  | 200 => ascii "OK"
  | 400 => ascii "Bad Request"
  | 404 => ascii "Not Found"
  | 405 => ascii "Method Not Allowed"
  | 411 => ascii "Length Required"
  | 413 => ascii "Payload Too Large"
  | 500 => ascii "Internal Server Error"
  | 502 => ascii "Bad Gateway"
  | 503 => ascii "Service Unavailable"
  | 504 => ascii "Gateway Timeout"
  | _ => ascii "Unknown"

def contentTypeOf : ResponseFormat → Bytes
  | .json => ascii "application/json"
  | .text => ascii "text/plain; charset=utf-8"
  | .prometheus => ascii "text/plain; version=0.0.4; charset=utf-8"

def buildHttpResponse (resp : HttpResponse) (includeBody : Bool) : Bytes :=
  ascii "HTTP/1.1 " ++ decimalText resp.status ++ [blank] ++ reasonPhrase resp.status ++ crlf ++
    (if includeBody then ascii "Content-Type: " ++ contentTypeOf resp.format ++ crlf else []) ++
    ascii "Content-Length: " ++ decimalText resp.body.length ++ crlf ++
    ascii "Connection: close" ++ crlf ++
    (resp.headers.map fun h => h.1 ++ ascii ": " ++ h.2 ++ crlf).flatten ++ crlf ++
    (if includeBody then resp.body else [])

def makeErrorResponse (status : Nat) (message : Bytes) (format : ResponseFormat) : HttpResponse where
  status := status
  format := format
  body :=
    match format with
    | .json => ascii "\x7b\"error\":\"" ++ jsonEscape message ++ ascii "\"\x7d"
    | _ => ascii "error=" ++ message ++ [10]

end Nshmqtt
