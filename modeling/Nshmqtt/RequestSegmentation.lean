import Nshmqtt.Server

/-!
# Requests and the segments they arrive in

A request is a stream of bytes, and `recv` delivers it in segments that neither
party chooses.  `read_until` tests its limit on the whole buffer before it looks
for the end of what it reads, so how far a segment runs past that end matters:

* behind the head, a segment may bring bytes of the body or of a later request,
  and all of them count against `max_request_bytes`;
* behind the body, a segment that brings more bytes makes the second read fail,
  while the same bytes that came with the head are cut off.

Whether the outcome depends on the segments is decided by three lengths: that of
the head, that of the stream and that of the body.
-/

namespace Nshmqtt

open ByteStrings

/-- The size of the buffer that `recv` fills. -/
def recvBufferSize : Nat := 4096

/-- What one successful `recv` delivers. -/
structure Segment where
  bytes : Bytes
  nonempty : bytes ≠ []
  bounded : bytes.length ≤ recvBufferSize

def recvs (segments : List Segment) : List Recv := segments.map fun segment => .data segment.bytes

/-- The stream that the segments make up. -/
def joined (segments : List Segment) : Bytes := (segments.map Segment.bytes).flatten

/-- The length of the body that a head announces. -/
def announcedLength (head : Bytes) : Nat :=
  match parseHttpRequest head {} with
  | none => 0
  | some (req, _) => req.contentLength.toNat

/-- A stream that starts with a complete head and has at least as many bytes after
it as the head announces. -/
structure RequestStream where
  bytes : Bytes
  /-- Where the first blank line starts. -/
  headStop : Nat
  complete : find bytes headEnd 0 = some headStop
  announced : headStop + headEnd.length +
    announcedLength (bytes.take (headStop + headEnd.length)) ≤ bytes.length

namespace RequestStream

/-- The length of the head, its blank line included. -/
def headLength (stream : RequestStream) : Nat := stream.headStop + headEnd.length

def head (stream : RequestStream) : Bytes := stream.bytes.take stream.headLength

def bodyLength (stream : RequestStream) : Nat := announcedLength stream.head

/-- The length of the head and of the body it announces. -/
def requestLength (stream : RequestStream) : Nat := stream.headLength + stream.bodyLength

/-- The stream without the bytes behind the body. -/
def request (stream : RequestStream) : Bytes := stream.bytes.take stream.requestLength

end RequestStream

/-- **Independence of the segments.**  Any two segmentations of the stream have the
same outcome; the head is too large exactly when it is longer than the limit; and
the bytes behind the body do not matter. -/
structure SegmentationFree (cfg : Config) (stream : RequestStream) : Prop where
  outcome : ∀ first second, joined first = stream.bytes → joined second = stream.bytes →
    receive cfg (recvs first) = receive cfg (recvs second)
  tooLarge : ∀ segments, joined segments = stream.bytes →
    ((readHttpHead cfg.maxRequestBytes (recvs segments)).1 = .tooLarge ↔
      cfg.maxRequestBytes < stream.headLength)
  surplus : ∀ first second, joined first = stream.bytes → joined second = stream.request →
    receive cfg (recvs first) = receive cfg (recvs second)

/-- Whether a body is read after this head. -/
def readsBody (cfg : Config) (head : Bytes) : Bool :=
  match parseHttpRequest head {} with
  | none => false
  | some (req, _) =>
      !req.chunked && decide (0 < req.contentLength) &&
        decide (req.contentLength.toNat ≤ cfg.maxBodyBytes)

/-- The condition on the lengths: the head is over the limit; or else the stream, or
the head with whatever a segment can bring behind it, is within the limit, and
nothing follows a body that is read. -/
def WithinLimits (cfg : Config) (stream : RequestStream) : Prop :=
  cfg.maxRequestBytes < stream.headLength ∨
    (min (stream.headLength + (recvBufferSize - 1)) stream.bytes.length ≤ cfg.maxRequestBytes ∧
      (readsBody cfg stream.head = true → stream.bytes.length = stream.requestLength))

@[simp]
theorem joined_nil : joined [] = [] :=
  rfl

/-- Segments arrive one after the other. -/
@[simp]
theorem joined_cons (segment : Segment) (rest : List Segment) :
    joined (segment :: rest) = segment.bytes ++ joined rest :=
  rfl

/-- The segments that are read before the loop looks at something it waits for. -/
theorem readUntil_append {maxBytes : Nat} {done : Bytes → Bool} {out : Bytes}
    {segments : List Segment} {rest : List Recv}
    (hno : ∀ k < (joined segments).length, done (out ++ (joined segments).take k) = false)
    (hfit : out.length + (joined segments).length ≤ maxBytes) :
    readUntil maxBytes done out (recvs segments ++ rest) =
      readUntil maxBytes done (out ++ joined segments) rest := by
  induction segments generalizing out with
  | nil => simp only [recvs, List.map_nil, List.nil_append, joined_nil, List.append_nil]
  | cons segment segments ih =>
      rw [joined_cons] at hno hfit ⊢
      rw [List.length_append] at hno hfit
      have hpos := List.length_pos_of_ne_nil segment.nonempty
      have hout : done out = false := by
        have hzero := hno 0 (by omega)
        rwa [List.take_zero, List.append_nil] at hzero
      have hnext : ∀ k < (joined segments).length,
          done ((out ++ segment.bytes) ++ (joined segments).take k) = false := by
        intro k hk
        have hlater := hno (segment.bytes.length + k) (by omega)
        rwa [List.take_length_add_append, ← List.append_assoc] at hlater
      have hsmall : ¬ (out ++ segment.bytes).length > maxBytes := by
        rw [List.length_append]
        omega
      have hrest := ih hnext (by rw [List.length_append]; omega)
      rw [← List.append_assoc, ← hrest]
      simp only [recvs, List.map_cons, List.cons_append, readUntil, hout, Bool.false_eq_true,
        if_false, if_neg hsmall]

/-- Nothing is read where nothing is missing. -/
theorem readUntil_of_done {maxBytes : Nat} {done : Bytes → Bool} {out : Bytes}
    (hdone : done out = true) (socket : List Recv) :
    readUntil maxBytes done out socket = (.ok, out, socket) := by
  cases socket with
  | nil => simp only [readUntil, hdone, if_true]
  | cons recv rest => simp only [readUntil, hdone, if_true]

/-- A segment that exceeds the limit ends the loop, whatever it brings. -/
theorem readUntil_overrun {maxBytes : Nat} {done : Bytes → Bool} {out : Bytes}
    {segment : Segment} (hout : done out = false)
    (hlong : maxBytes < out.length + segment.bytes.length) (rest : List Segment) :
    readUntil maxBytes done out (recvs (segment :: rest)) =
      (.tooLarge, out ++ segment.bytes, recvs rest) := by
  have hlarge : (out ++ segment.bytes).length > maxBytes := by
    rw [List.length_append]
    exact hlong
  simp only [recvs, List.map_cons, readUntil, hout, Bool.false_eq_true, if_false, if_pos hlarge]

/-- A segment within the limit is taken over. -/
theorem readUntil_cons {maxBytes : Nat} {done : Bytes → Bool} {out : Bytes}
    {segment : Segment} (hout : done out = false)
    (hfit : out.length + segment.bytes.length ≤ maxBytes) (rest : List Segment) :
    readUntil maxBytes done out (recvs (segment :: rest)) =
      readUntil maxBytes done (out ++ segment.bytes) (recvs rest) := by
  have hsmall : ¬ (out ++ segment.bytes).length > maxBytes := by
    rw [List.length_append]
    omega
  simp only [recvs, List.map_cons, readUntil, hout, Bool.false_eq_true, if_false, if_neg hsmall]

/-- When the segments hold exactly what is needed, all of it is read. -/
theorem readUntil_exact {whole out : Bytes} {segments : List Segment}
    (hsplit : out ++ joined segments = whole) :
    ∃ rest, readUntil whole.length (fun s => decide (whole.length ≤ s.length)) out
      (recvs segments) = (.ok, whole, rest) := by
  induction segments generalizing out with
  | nil =>
      rw [joined_nil, List.append_nil] at hsplit
      subst hsplit
      exact ⟨_, readUntil_of_done (by simp only [Nat.le_refl, decide_true]) _⟩
  | cons segment rest ih =>
      have hlength := congrArg List.length hsplit
      rw [joined_cons, List.length_append, List.length_append] at hlength
      have hpos := List.length_pos_of_ne_nil segment.nonempty
      have hout : decide (whole.length ≤ out.length) = false := by
        rw [decide_eq_false_iff_not]
        omega
      rw [readUntil_cons hout (by omega)]
      apply ih
      rw [List.append_assoc]
      exact hsplit

namespace RequestStream

variable (stream : RequestStream)

theorem headLength_le : stream.headLength ≤ stream.bytes.length :=
  (find_length stream.complete).2

theorem headLength_le_requestLength : stream.headLength ≤ stream.requestLength :=
  Nat.le_add_right _ _

theorem requestLength_le : stream.requestLength ≤ stream.bytes.length :=
  stream.announced

/-- The blank line is found as soon as the whole head has been read. -/
theorem contains_take (n : Nat) :
    contains (stream.bytes.take n) headEnd = true ↔ stream.headLength ≤ n :=
  contains_take_iff stream.complete

/-- The head does not end earlier. -/
theorem contains_take_eq_false {n : Nat} (hn : n < stream.headLength) :
    contains (stream.bytes.take n) headEnd = false := by
  rw [Bool.eq_false_iff]
  intro hcontains
  have := (stream.contains_take n).mp hcontains
  omega

/-- However much is read with the head, it parses as the head does. -/
theorem parse_take {n : Nat} (hn : stream.headLength ≤ n) :
    parseHttpRequest (stream.bytes.take n) {} =
      (parseHttpRequest stream.head {}).map
        fun parsed => (parsed.1, (stream.bytes.take n).drop stream.headLength) := by
  have hfind : find (stream.bytes.take n) headEnd 0 = some stream.headStop :=
    (find_take hn).mpr stream.complete
  rw [parseHttpRequest_take hfind]
  have htake : (stream.bytes.take n).take (stream.headStop + headEnd.length) = stream.head := by
    rw [List.take_take]
    exact congrArg (fun k => stream.bytes.take k) (Nat.min_eq_left hn)
  rw [htake]
  rfl

/-- Nothing is left behind a head that is parsed alone. -/
theorem leftover_eq_nil {stream : RequestStream} {req : HttpRequest} {leftover : Bytes}
    (hparse : parseHttpRequest stream.head {} = some (req, leftover)) : leftover = [] := by
  have hhead := stream.parse_take (Nat.le_refl _)
  change parseHttpRequest stream.head {} = _ at hhead
  rw [hparse, Option.map_some, Option.some.injEq, Prod.mk.injEq] at hhead
  rw [hhead.2]
  exact List.drop_eq_nil_of_le (List.length_take_le _ _)

end RequestStream

/-- What reading a head from segments comes to: the head and what one segment can
bring behind it, or more than the limit. -/
inductive HeadRead (stream : RequestStream) (maxBytes : Nat) :
    ReadResult × Bytes × List Recv → Prop
  | ok (n : Nat) (rest : List Segment) (whole : stream.headLength ≤ n) (fits : n ≤ maxBytes)
      (short : n ≤ min (stream.headLength + (recvBufferSize - 1)) stream.bytes.length)
      (split : joined rest = stream.bytes.drop n) :
      HeadRead stream maxBytes (.ok, stream.bytes.take n, recvs rest)
  | tooLarge (out : Bytes) (rest : List Recv) (exceeds : maxBytes < out.length)
      (short : out.length ≤ min (stream.headLength + (recvBufferSize - 1)) stream.bytes.length) :
      HeadRead stream maxBytes (.tooLarge, out, rest)

/-- **The read of the head**, for every way in which the stream is cut. -/
theorem headRead_readUntil {stream : RequestStream} {maxBytes : Nat} {out : Bytes}
    {segments : List Segment} (hsplit : out ++ joined segments = stream.bytes)
    (hfits : out.length ≤ maxBytes)
    (hshort : out.length ≤ stream.headLength + (recvBufferSize - 1)) :
    HeadRead stream maxBytes
      (readUntil maxBytes (fun s => contains s headEnd) out (recvs segments)) := by
  induction segments generalizing out with
  | nil =>
      rw [joined_nil, List.append_nil] at hsplit
      have hdone : contains out headEnd = true := by
        rw [hsplit]
        have hwhole := (stream.contains_take stream.bytes.length).mpr stream.headLength_le
        rwa [List.take_length] at hwhole
      rw [readUntil_of_done (by exact hdone)]
      have hread : HeadRead stream maxBytes (.ok, stream.bytes.take out.length, recvs []) := by
        apply HeadRead.ok
        · rw [hsplit]
          exact stream.headLength_le
        · exact hfits
        · rw [hsplit] at hshort ⊢
          exact Nat.le_min.mpr ⟨hshort, Nat.le_refl _⟩
        · rw [hsplit, List.drop_length, joined_nil]
      rwa [← hsplit, List.take_length] at hread
  | cons segment rest ih =>
      have hout : out = stream.bytes.take out.length := by rw [← hsplit, List.take_left]
      have hlength := congrArg List.length hsplit
      rw [joined_cons, List.length_append, List.length_append] at hlength
      by_cases hwhole : stream.headLength ≤ out.length
      · have hdone : contains out headEnd = true := by
          rw [hout]
          exact (stream.contains_take _).mpr hwhole
        rw [readUntil_of_done (by exact hdone)]
        have hread : HeadRead stream maxBytes
            (.ok, stream.bytes.take out.length, recvs (segment :: rest)) := by
          apply HeadRead.ok _ _ hwhole hfits (Nat.le_min.mpr ⟨hshort, by omega⟩)
          rw [← hsplit, List.drop_left]
        rwa [← hout] at hread
      · have hno : contains out headEnd = false := by
          rw [hout]
          exact stream.contains_take_eq_false (by omega)
        have hbounded := segment.bounded
        have hnext : (out ++ segment.bytes).length ≤
            min (stream.headLength + (recvBufferSize - 1)) stream.bytes.length := by
          rw [List.length_append]
          exact Nat.le_min.mpr ⟨by simp only [recvBufferSize] at hbounded ⊢; omega, by omega⟩
        by_cases hover : maxBytes < out.length + segment.bytes.length
        · rw [readUntil_overrun (by exact hno) hover]
          apply HeadRead.tooLarge _ _ _ hnext
          rw [List.length_append]
          exact hover
        · rw [readUntil_cons (by exact hno) (by omega)]
          apply ih
          · rw [List.append_assoc]
            exact hsplit
          · rw [List.length_append]
            omega
          · exact (Nat.le_min.mp hnext).1

/-- The outcome when exactly the request arrives, and all of it with the head. -/
def RequestStream.outcome (cfg : Config) (stream : RequestStream) : Received :=
  if cfg.maxRequestBytes < stream.headLength then
    .rejected [] (jsonError 400 "request headers too large") false
  else
    match parseHttpRequest stream.head {} with
    | none => .rejected [] (jsonError 400 "malformed HTTP request") false
    | some (req, _) =>
        receiveParsed cfg req
          ((stream.bytes.drop stream.headLength).take stream.bodyLength) []

/-- A body that the stream ends with is read completely. -/
theorem receiveBody_of_exact {req : HttpRequest} {leftover body : Bytes}
    {segments : List Segment} (hsplit : leftover ++ joined segments = body)
    (hlength : body.length = req.contentLength.toNat) :
    receiveBody req leftover (recvs segments) = .request { req with body := body } := by
  have hle := congrArg List.length hsplit
  rw [List.length_append] at hle
  have htake : leftover.take req.contentLength.toNat = leftover :=
    List.take_of_length_le (by omega)
  unfold receiveBody
  simp only [htake]
  split_ifs with hshort
  · obtain ⟨rest, hread⟩ := readUntil_exact hsplit
    have htarget : leftover.length + (req.contentLength.toNat - leftover.length) =
        body.length := by omega
    simp only [readHttpBody, htarget, hread]
  · have hnone : joined segments = [] := List.eq_nil_of_length_eq_zero (by omega)
    rw [hnone, List.append_nil] at hsplit
    rw [hsplit]

/-- A body that came with the head is taken over. -/
theorem receiveBody_whole {req : HttpRequest} {body : Bytes}
    (hlength : body.length = req.contentLength.toNat) :
    receiveBody req body [] = .request { req with body := body } := by
  have hsplit : body ++ joined [] = body := List.append_nil body
  exact receiveBody_of_exact hsplit hlength

/-- A body is read when it is announced and within the limit. -/
theorem readsBody_eq_true_iff {cfg : Config} {head leftover : Bytes} {req : HttpRequest}
    (hparse : parseHttpRequest head {} = some (req, leftover)) :
    readsBody cfg head = true ↔
      req.chunked = false ∧ 0 < req.contentLength ∧
        req.contentLength.toNat ≤ cfg.maxBodyBytes := by
  simp only [readsBody, hparse, Bool.and_eq_true, decide_eq_true_eq, Bool.not_eq_true',
    and_assoc]

/-- The checks and the body do not depend on the segments when nothing follows the
body. -/
theorem receiveParsed_of_exact {cfg : Config} {req : HttpRequest} {leftover rest : Bytes}
    {segments : List Segment} (hsplit : leftover ++ joined segments = rest)
    (hexact : req.chunked = false → 0 < req.contentLength →
      req.contentLength.toNat ≤ cfg.maxBodyBytes → rest.length = req.contentLength.toNat) :
    receiveParsed cfg req leftover (recvs segments) =
      receiveParsed cfg req (rest.take req.contentLength.toNat) [] := by
  unfold receiveParsed
  dsimp only
  split_ifs with hchunked hlarge hbody
  · rfl
  · rfl
  · have hlength := hexact (by simpa using hchunked) hbody (by omega)
    rw [receiveBody_of_exact hsplit hlength, List.take_of_length_le (by omega)]
    exact (receiveBody_whole hlength).symm
  · rfl

namespace RequestStream

variable (stream : RequestStream)

/-- The length of the body is the one announced. -/
theorem bodyLength_of_parse {stream : RequestStream} {req : HttpRequest} {leftover : Bytes}
    (hparse : parseHttpRequest stream.head {} = some (req, leftover)) :
    stream.bodyLength = req.contentLength.toNat := by
  simp only [bodyLength, announcedLength, hparse]

/-- **One outcome.**  Within the limits every segmentation of the stream comes to
the outcome of the request alone. -/
theorem receive_eq_outcome {cfg : Config} {stream : RequestStream}
    (hlimits : WithinLimits cfg stream) {segments : List Segment}
    (hsplit : joined segments = stream.bytes) :
    receive cfg (recvs segments) = stream.outcome cfg := by
  have hread := headRead_readUntil (show [] ++ joined segments = stream.bytes from hsplit)
    (Nat.zero_le cfg.maxRequestBytes) (Nat.zero_le _)
  unfold receive readHttpHead outcome
  generalize readUntil cfg.maxRequestBytes (fun s => contains s headEnd) [] (recvs segments) =
    result at hread
  cases hread with
  | ok n rest hwhole hfits hshort hrest =>
      rw [if_neg (by omega)]
      dsimp only
      rw [stream.parse_take hwhole]
      cases hparse : parseHttpRequest stream.head {} with
      | none => rfl
      | some parsed =>
          obtain ⟨req, leftover⟩ := parsed
          have hbody := bodyLength_of_parse hparse
          have hleftover : (stream.bytes.take n).drop stream.headLength ++ joined rest =
              stream.bytes.drop stream.headLength := by
            have hlength : stream.headLength ≤ (stream.bytes.take n).length := by
              rw [List.length_take]
              omega
            rw [hrest, ← List.drop_append_of_le_length hlength, List.take_append_drop]
          dsimp only [Option.map_some]
          rw [hbody]
          apply receiveParsed_of_exact hleftover
          intro hchunked hpos hmax
          have hreads := (readsBody_eq_true_iff hparse).mpr ⟨hchunked, hpos, hmax⟩
          rcases hlimits with hover | ⟨-, hexact⟩
          · omega
          · have hlength := hexact hreads
            rw [List.length_drop, hlength, requestLength, hbody]
            omega
  | tooLarge out rest hover hshort =>
      rcases hlimits with hlarge | ⟨hfit, -⟩
      · rw [if_pos hlarge]
      · omega

/-- A head is too large exactly when it is over the limit. -/
theorem tooLarge_iff {cfg : Config} {stream : RequestStream} (hlimits : WithinLimits cfg stream)
    {segments : List Segment} (hsplit : joined segments = stream.bytes) :
    (readHttpHead cfg.maxRequestBytes (recvs segments)).1 = .tooLarge ↔
      cfg.maxRequestBytes < stream.headLength := by
  have hread := headRead_readUntil (show [] ++ joined segments = stream.bytes from hsplit)
    (Nat.zero_le cfg.maxRequestBytes) (Nat.zero_le _)
  unfold readHttpHead
  generalize readUntil cfg.maxRequestBytes (fun s => contains s headEnd) [] (recvs segments) =
    result at hread
  cases hread with
  | ok n rest hwhole hfits hshort hrest =>
      constructor
      · intro h
        cases h
      · intro h
        omega
  | tooLarge out rest hover hshort =>
      constructor
      · intro _
        rcases hlimits with hlarge | ⟨hfit, -⟩
        · exact hlarge
        · omega
      · intro _
        rfl

theorem take_headLength_request : stream.request.take stream.headLength = stream.head := by
  rw [request, List.take_take, head, Nat.min_eq_left stream.headLength_le_requestLength]

theorem length_request : stream.request.length = stream.requestLength := by
  rw [request, List.length_take, Nat.min_eq_left stream.requestLength_le]

/-- The request alone is a stream of its own. -/
def truncate : RequestStream where
  bytes := stream.request
  headStop := stream.headStop
  complete := (find_take (Nat.le_add_right _ _)).mpr stream.complete
  announced := by
    have htake : stream.request.take (stream.headStop + headEnd.length) = stream.head :=
      stream.take_headLength_request
    rw [htake, stream.length_request]
    exact Nat.le_refl _

theorem truncate_head : stream.truncate.head = stream.head :=
  stream.take_headLength_request

theorem truncate_bodyLength : stream.truncate.bodyLength = stream.bodyLength :=
  congrArg announcedLength stream.truncate_head

theorem truncate_requestLength : stream.truncate.requestLength = stream.requestLength :=
  congrArg (stream.headLength + ·) stream.truncate_bodyLength

/-- Cutting off the surplus keeps the outcome. -/
theorem truncate_outcome (cfg : Config) : stream.truncate.outcome cfg = stream.outcome cfg := by
  have hbody : (stream.request.drop stream.headLength).take stream.bodyLength =
      (stream.bytes.drop stream.headLength).take stream.bodyLength := by
    rw [request, List.drop_take, List.take_take]
    congr 1
    exact Nat.min_eq_left (by simp only [requestLength]; omega)
  unfold outcome
  rw [stream.truncate_head, stream.truncate_bodyLength]
  change (if cfg.maxRequestBytes < stream.headLength then _ else
    match parseHttpRequest stream.head {} with
    | none => _
    | some (req, _) => receiveParsed cfg req
        ((stream.request.drop stream.headLength).take stream.bodyLength) []) = _
  rw [hbody]

/-- Without surplus only the first bound matters. -/
theorem withinLimits_truncate {cfg : Config}
    (hfit : min (stream.headLength + (recvBufferSize - 1)) stream.bytes.length ≤
      cfg.maxRequestBytes) : WithinLimits cfg stream.truncate := by
  have hle := stream.requestLength_le
  refine Or.inr ⟨?_, fun _ => ?_⟩
  · change min (stream.headLength + (recvBufferSize - 1)) stream.request.length ≤ _
    rw [stream.length_request]
    omega
  · rw [stream.truncate_requestLength]
    exact stream.length_request

end RequestStream

/-- One segment a byte. -/
def bytewise (bytes : Bytes) : List Segment :=
  bytes.map fun b => ⟨[b], List.cons_ne_nil _ _, by simp [recvBufferSize]⟩

/-- A stream can come byte by byte. -/
theorem joined_bytewise (bytes : Bytes) : joined (bytewise bytes) = bytes := by
  induction bytes with
  | nil => rfl
  | cons b rest ih => exact congrArg (b :: ·) ih

/-- Segments can be put one behind the other. -/
theorem joined_append (first second : List Segment) :
    joined (first ++ second) = joined first ++ joined second := by
  simp only [joined, List.map_append, List.flatten_append]

theorem recvs_append (first second : List Segment) :
    recvs (first ++ second) = recvs first ++ recvs second :=
  List.map_append

/-- The stream cut bytewise, with one longer segment from `start` to `stop`. -/
def overrunAt (bytes : Bytes) (start stop : Nat) (hlt : start < stop)
    (hstop : stop ≤ bytes.length) (hsize : stop - start ≤ recvBufferSize) : List Segment :=
  bytewise (bytes.take start) ++
    ⟨(bytes.take stop).drop start,
      List.ne_nil_of_length_pos (by rw [List.length_drop, List.length_take]; omega),
      by rw [List.length_drop, List.length_take]; omega⟩ :: bytewise (bytes.drop stop)

section Overrun

variable {bytes : Bytes} {start stop : Nat} (hlt : start < stop) (hstop : stop ≤ bytes.length)
  (hsize : stop - start ≤ recvBufferSize)

/-- A stream can come with one segment across a given place. -/
theorem joined_overrunAt : joined (overrunAt bytes start stop hlt hstop hsize) = bytes := by
  have hstart : bytes.take start = (bytes.take stop).take start := by
    rw [List.take_take, Nat.min_eq_left (Nat.le_of_lt hlt)]
  rw [overrunAt, joined_append, joined_cons, joined_bytewise, joined_bytewise, hstart,
    ← List.append_assoc, List.take_append_drop, List.take_append_drop]

/-- The longer segment makes the loop fail when it reaches from bytes that are still
too few to behind the limit. -/
theorem readUntil_overrunAt {maxBytes : Nat} (done : Bytes → Bool) (out : Bytes)
    (hno : ∀ k ≤ start, done (out ++ bytes.take k) = false)
    (hfit : out.length + start ≤ maxBytes) (hover : maxBytes < out.length + stop) :
    (readUntil maxBytes done out (recvs (overrunAt bytes start stop hlt hstop hsize))).1 =
      .tooLarge := by
  have hlength : (bytes.take start).length = start :=
    List.length_take_of_le (by omega)
  rw [overrunAt, recvs_append, readUntil_append, joined_bytewise, readUntil_overrun]
  · exact hno start (Nat.le_refl _)
  · rw [List.length_append, hlength, List.length_drop, List.length_take]
    omega
  · intro k hk
    rw [joined_bytewise] at hk ⊢
    rw [List.take_take, Nat.min_eq_left (by omega)]
    exact hno k (by omega)
  · rw [joined_bytewise, hlength]
    exact hfit

end Overrun

/-- A head within the limit can be refused when more than the limit follows within
one segment. -/
theorem exists_tooLarge {cfg : Config} {stream : RequestStream}
    (hhead : stream.headLength ≤ cfg.maxRequestBytes)
    (hover : cfg.maxRequestBytes <
      min (stream.headLength + (recvBufferSize - 1)) stream.bytes.length) :
    ∃ segments, joined segments = stream.bytes ∧
      (readHttpHead cfg.maxRequestBytes (recvs segments)).1 = .tooLarge := by
  obtain ⟨hreach, hlength⟩ := Nat.lt_min.mp hover
  have hpos : 0 < stream.headLength := Nat.succ_pos _
  have hsize : cfg.maxRequestBytes + 1 - (stream.headLength - 1) ≤ recvBufferSize := by
    simp only [recvBufferSize] at hreach ⊢
    omega
  refine ⟨overrunAt stream.bytes (stream.headLength - 1) (cfg.maxRequestBytes + 1) (by omega)
    hlength hsize, joined_overrunAt _ _ _, ?_⟩
  apply readUntil_overrunAt _ _ _ (fun s => contains s headEnd) []
  · intro k hk
    exact stream.contains_take_eq_false (by omega)
  · rw [List.length_nil]
    omega
  · rw [List.length_nil]
    omega

/-- The head arrives bytewise, with nothing behind it. -/
theorem readHttpHead_bytewise {stream : RequestStream} {maxBytes : Nat}
    (hhead : stream.headLength ≤ maxBytes) (rest : List Recv) :
    readHttpHead maxBytes (recvs (bytewise stream.head) ++ rest) =
      (.ok, stream.head, rest) := by
  have hlength : stream.head.length = stream.headLength :=
    List.length_take_of_le stream.headLength_le
  unfold readHttpHead
  rw [readUntil_append, joined_bytewise, List.nil_append, readUntil_of_done]
  · exact (stream.contains_take _).mpr (Nat.le_refl _)
  · intro k hk
    rw [joined_bytewise] at hk ⊢
    rw [List.nil_append, RequestStream.head, List.take_take, Nat.min_eq_left (by omega)]
    exact stream.contains_take_eq_false (by omega)
  · rw [joined_bytewise, List.length_nil, hlength]
    omega

/-- A body that is read can be lost when bytes follow it. -/
theorem exists_dropped {cfg : Config} {stream : RequestStream}
    (hhead : stream.headLength ≤ cfg.maxRequestBytes)
    (hreads : readsBody cfg stream.head = true)
    (hsurplus : stream.requestLength < stream.bytes.length) :
    ∃ segments path, joined segments = stream.bytes ∧
      receive cfg (recvs segments) = .dropped path := by
  cases hparse : parseHttpRequest stream.head {} with
  | none => simp only [readsBody, hparse, Bool.false_eq_true] at hreads
  | some parsed =>
      obtain ⟨req, leftover⟩ := parsed
      obtain ⟨hchunked, hpos, hmax⟩ := (readsBody_eq_true_iff hparse).mp hreads
      have hbody := RequestStream.bodyLength_of_parse hparse
      have hneed : 0 < req.contentLength.toNat := by omega
      have hdrop : req.contentLength.toNat + 1 ≤
          (stream.bytes.drop stream.headLength).length := by
        rw [List.length_drop]
        simp only [RequestStream.requestLength, hbody] at hsurplus
        omega
      have hsize : req.contentLength.toNat + 1 - (req.contentLength.toNat - 1) ≤
          recvBufferSize := by
        simp only [recvBufferSize]
        omega
      refine ⟨bytewise stream.head ++ overrunAt (stream.bytes.drop stream.headLength)
        (req.contentLength.toNat - 1) (req.contentLength.toNat + 1) (by omega) hdrop hsize,
        some req.path, ?_, ?_⟩
      · rw [joined_append, joined_bytewise, joined_overrunAt, RequestStream.head,
          List.take_append_drop]
      · have hnone : leftover = [] := RequestStream.leftover_eq_nil hparse
        subst hnone
        unfold receive
        rw [recvs_append, readHttpHead_bytewise hhead]
        dsimp only
        rw [hparse]
        dsimp only
        unfold receiveParsed
        dsimp only
        rw [hchunked, if_neg Bool.false_ne_true, if_neg (by omega), if_pos hpos]
        unfold receiveBody
        simp only [List.take_nil, List.length_nil, Nat.sub_zero]
        rw [if_pos hneed]
        have hshort : ∀ k ≤ req.contentLength.toNat - 1,
            decide (req.contentLength.toNat ≤
              ([] ++ (stream.bytes.drop stream.headLength).take k).length) = false := by
          intro k hk
          rw [decide_eq_false_iff_not, List.nil_append, List.length_take]
          omega
        have hread := readUntil_overrunAt (by omega) hdrop hsize
          (fun s => decide (req.contentLength.toNat ≤ s.length)) [] hshort
          (show [].length + (req.contentLength.toNat - 1) ≤ req.contentLength.toNat by
            rw [List.length_nil]
            omega)
          (by rw [List.length_nil]; omega)
        simp only [readHttpBody, List.length_nil, Nat.zero_add]
        split
        · rename_i heq
          rw [heq] at hread
          cases hread
        · rfl

/-- A body that is read reaches the routes. -/
theorem RequestStream.exists_outcome {cfg : Config} {stream : RequestStream}
    (hhead : stream.headLength ≤ cfg.maxRequestBytes)
    (hreads : readsBody cfg stream.head = true) :
    ∃ req, stream.outcome cfg = .request req := by
  cases hparse : parseHttpRequest stream.head {} with
  | none => simp only [readsBody, hparse, Bool.false_eq_true] at hreads
  | some parsed =>
      obtain ⟨req, leftover⟩ := parsed
      obtain ⟨hchunked, hpos, hmax⟩ := (readsBody_eq_true_iff hparse).mp hreads
      have hbody := bodyLength_of_parse hparse
      have hle := stream.requestLength_le
      simp only [requestLength, hbody] at hle
      have hlength : ((stream.bytes.drop stream.headLength).take stream.bodyLength).length =
          req.contentLength.toNat := by
        rw [List.length_take, List.length_drop, hbody]
        omega
      refine ⟨{ req with body :=
        (stream.bytes.drop stream.headLength).take stream.bodyLength }, ?_⟩
      unfold outcome
      rw [if_neg (by omega), hparse]
      dsimp only
      unfold receiveParsed
      dsimp only
      have hplain : ¬ req.chunked = true := by
        rw [hchunked]
        exact Bool.false_ne_true
      rw [if_neg hplain, if_neg (by omega), if_pos hpos]
      exact receiveBody_whole hlength

/-- **When the segments do not matter**: exactly when the lengths are within the
limits. -/
theorem segmentationFree_iff (cfg : Config) (stream : RequestStream) :
    SegmentationFree cfg stream ↔ WithinLimits cfg stream := by
  constructor
  · intro hfree
    by_cases hhead : cfg.maxRequestBytes < stream.headLength
    · exact Or.inl hhead
    · have hfit : min (stream.headLength + (recvBufferSize - 1)) stream.bytes.length ≤
          cfg.maxRequestBytes := by
        by_contra hover
        obtain ⟨segments, hsplit, hlarge⟩ :=
          exists_tooLarge (Nat.not_lt.mp hhead) (Nat.not_le.mp hover)
        exact hhead ((hfree.tooLarge segments hsplit).mp hlarge)
      refine Or.inr ⟨hfit, fun hreads => ?_⟩
      by_contra hsurplus
      have hle := stream.requestLength_le
      obtain ⟨segments, path, hsplit, hdropped⟩ :=
        exists_dropped (Nat.not_lt.mp hhead) hreads (by omega)
      obtain ⟨req, hrequest⟩ := RequestStream.exists_outcome (Nat.not_lt.mp hhead) hreads
      have htruncated := RequestStream.receive_eq_outcome (stream.withinLimits_truncate hfit)
        (joined_bytewise stream.request)
      have hsame := hfree.surplus segments (bytewise stream.request) hsplit
        (joined_bytewise _)
      rw [hdropped, htruncated, stream.truncate_outcome, hrequest] at hsame
      cases hsame
  · intro hlimits
    refine ⟨?_, fun segments => RequestStream.tooLarge_iff hlimits, ?_⟩
    · intro first second hfirst hsecond
      rw [RequestStream.receive_eq_outcome hlimits hfirst,
        RequestStream.receive_eq_outcome hlimits hsecond]
    · intro first second hfirst hsecond
      have htruncated : WithinLimits cfg stream.truncate := by
        rcases hlimits with hover | ⟨hfit, -⟩
        · exact Or.inl hover
        · exact stream.withinLimits_truncate hfit
      rw [RequestStream.receive_eq_outcome hlimits hfirst,
        RequestStream.receive_eq_outcome htruncated hsecond, stream.truncate_outcome]

/-- A head that announces one byte. -/
def oneByteHead : Bytes :=
  ascii "POST /event/t HTTP/1.1" ++ crlf ++ ascii "Content-Length: 1" ++ headEnd

/-- The request with one byte too many. -/
def surplusStream : RequestStream where
  bytes := oneByteHead ++ ascii "ab"
  headStop := 41
  complete := by decide +kernel
  announced := by decide +kernel

/-- **The segments matter**: a byte behind the body is cut off when it comes with the
head, and the connection is closed without an answer when it comes after it. -/
theorem segmentation_decides : ¬ ∀ (cfg : Config) (stream : RequestStream),
    SegmentationFree cfg stream := by
  intro hclaim
  have hfree := hclaim {} surplusStream
  have hsame := hfree.outcome
    [⟨oneByteHead ++ ascii "ab", by decide +kernel, by decide +kernel⟩]
    [⟨oneByteHead, by decide +kernel, by decide +kernel⟩,
      ⟨ascii "ab", by decide +kernel, by decide +kernel⟩]
    (by decide +kernel) (by decide +kernel)
  revert hsame
  decide +kernel

end Nshmqtt
