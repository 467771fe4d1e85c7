import Nshmqtt.RouteEffects

/-!
# The bytes of a body

The body of a request is put together from what came behind the head and from a
second read with its own limit.  Whatever the `recv` results are, it is exactly
the announced number of bytes behind the first blank line.
-/

namespace Nshmqtt

open ByteStrings

/-- All bytes that the `recv` results bring. -/
def recvBytes : List Recv → Bytes
  | [] => []
  | .data chunk :: rest => chunk ++ recvBytes rest
  | _ :: rest => recvBytes rest

/-- A successful read returns a start of the bytes, as far as `done` needs; only what
was there before it can be longer than the limit. -/
theorem readUntil_ok {maxBytes : Nat} {done : Bytes → Bool} {out out' : Bytes}
    {socket rest : List Recv} (h : readUntil maxBytes done out socket = (.ok, out', rest)) :
    out' ++ recvBytes rest = out ++ recvBytes socket ∧ done out' = true ∧
      (out' = out ∨ out'.length ≤ maxBytes) := by
  induction socket generalizing out with
  | nil =>
      simp only [readUntil, Prod.mk.injEq] at h
      obtain ⟨hdone, rfl, rfl⟩ := h
      split_ifs at hdone with hout
      exact ⟨rfl, hout, .inl rfl⟩
  | cons recv socket ih =>
      simp only [readUntil] at h
      split_ifs at h with hout
      · simp only [Prod.mk.injEq, true_and] at h
        obtain ⟨rfl, rfl⟩ := h
        exact ⟨rfl, hout, .inl rfl⟩
      · cases recv with
        | data chunk =>
            simp only at h
            split_ifs at h with hlarge
            · cases h
            · obtain ⟨hbytes, hdone, hlength⟩ := ih h
              refine ⟨?_, hdone, .inr ?_⟩
              · rw [hbytes, recvBytes, List.append_assoc]
              · rcases hlength with heq | hle
                · rw [heq]
                  exact Nat.not_lt.mp hlarge
                · exact hle
        | interrupted => exact ih h
        | closed => cases h
        | timedOut => cases h
        | failed => cases h

/-- A read of the body ends with exactly the bytes that were missing. -/
theorem readHttpBody_ok {need : Nat} {body body' : Bytes} {socket rest : List Recv}
    (hneed : 0 < need) (h : readHttpBody need body socket = (.ok, body', rest)) :
    body' ++ recvBytes rest = body ++ recvBytes socket ∧ body'.length = body.length + need := by
  obtain ⟨hbytes, hdone, hlength⟩ := readUntil_ok h
  rw [decide_eq_true_eq] at hdone
  refine ⟨hbytes, ?_⟩
  rcases hlength with heq | hle
  · rw [heq] at hdone
    omega
  · omega

/-- The body that is received starts what follows the head, and has the length that
the head announces. -/
theorem receiveBody_request {req req' : HttpRequest} {leftover : Bytes} {socket : List Recv}
    (h : receiveBody req leftover socket = .request req') :
    ∃ body, req' = { req with body := body } ∧ body.length = req.contentLength.toNat ∧
      body <+: leftover ++ recvBytes socket := by
  simp only [receiveBody] at h
  have htake : leftover.take req.contentLength.toNat <+: leftover := List.take_prefix _ _
  split_ifs at h with hshort
  · -- all that came behind the head is part of the body
    have hall : leftover.take req.contentLength.toNat = leftover := by
      rw [List.length_take] at hshort
      exact List.take_of_length_le (by omega)
    rw [hall] at h hshort
    cases hread : readHttpBody (req.contentLength.toNat - leftover.length) leftover socket with
    | mk result read =>
        obtain ⟨body, rest⟩ := read
        rw [hread] at h
        cases result with
        | ok =>
            obtain ⟨hbytes, hlength⟩ := readHttpBody_ok (by omega) hread
            refine ⟨body, (Received.request.inj h).symm, by omega, ?_⟩
            rw [← hbytes]
            exact List.prefix_append _ _
        | _ => cases h
  · refine ⟨leftover.take req.contentLength.toNat, (Received.request.inj h).symm, ?_,
      htake.trans (List.prefix_append _ _)⟩
    have := List.length_take_le req.contentLength.toNat leftover
    omega

/-- A request that is routed went through the checks. -/
theorem receiveParsed_request {cfg : Config} {req req' : HttpRequest} {leftover : Bytes}
    {socket : List Recv} (h : receiveParsed cfg req leftover socket = .request req')
    (hlength : 0 < req'.contentLength) :
    req.contentLength.toNat ≤ cfg.maxBodyBytes ∧
      receiveBody req leftover socket = .request req' := by
  simp only [receiveParsed] at h
  split_ifs at h with hchunked hlarge hbody
  · exact ⟨Nat.not_lt.mp fun hexceeds => hlarge ⟨hbody, hexceeds⟩, h⟩
  · cases h
    exact (hbody hlength).elim

/-- What is parsed is the head of the stream, and the rest of it is left over or still
to come. -/
theorem receive_request {cfg : Config} {socket : List Recv} {req : HttpRequest}
    (h : receive cfg socket = .request req) (hlength : 0 < req.contentLength) :
    req.contentLength.toNat ≤ cfg.maxBodyBytes ∧
      ∃ i, find (recvBytes socket) headEnd 0 = some i ∧
        req.body.length = req.contentLength.toNat ∧
        req.body <+: (recvBytes socket).drop (i + headEnd.length) := by
  simp only [receive] at h
  cases hread : readHttpHead cfg.maxRequestBytes socket with
  | mk result read =>
      obtain ⟨raw, rest⟩ := read
      rw [hread] at h
      cases result with
      | ok =>
          obtain ⟨hbytes, hdone, -⟩ := readUntil_ok hread
          rw [List.nil_append] at hbytes
          obtain ⟨i, hfind⟩ := contains_iff.mp hdone
          have hstream : find (recvBytes socket) headEnd 0 = some i := by
            rw [← hbytes]
            apply (find_take (find_length hfind).2).mp
            rwa [List.take_left]
          simp only [parseHttpRequest_take hfind] at h
          cases hparse : parseHttpRequest (raw.take (i + headEnd.length)) {} with
          | none => simp [hparse] at h
          | some parsed =>
              obtain ⟨parsedReq, leftover⟩ := parsed
              simp only [hparse, Option.map_some] at h
              obtain ⟨hbound, hbody⟩ := receiveParsed_request h hlength
              obtain ⟨body, rfl, hexact, hprefix⟩ := receiveBody_request hbody
              refine ⟨hbound, i, hstream, hexact, ?_⟩
              rwa [← hbytes, List.drop_append_of_le_length (find_length hfind).2]
      | tooLarge => cases h
      | connectionClosed => cases h
      | timeout => cases h
      | ioError => cases h

/-- Where a call of `publish` comes from. -/
theorem call_of_published {cfg : Config} {env : Surroundings} {s : ServerState}
    {req : HttpRequest} {call : PublishCall}
    (h : (route cfg env s req).2.publishCalls = s.publishCalls ++ [call]) :
    eventCall cfg env req = .ok call ∨
      (∃ value, metricValue cfg req = some value ∧
        call = metricWriteCall cfg (metricName req) value) ∨
      (req.method = ascii "DELETE" ∧ call = metricDeleteCall cfg (metricName req)) := by
  have hunchanged : s.publishCalls ≠ s.publishCalls ++ [call] := by simp
  have houtcome : RouteOutcome cfg env s req (route cfg env s req) := route_outcome
  generalize route cfg env s req = result at houtcome h
  cases houtcome with
  | event asked =>
      rw [← List.singleton_inj.mp (List.append_cancel_left h)]
      exact .inl asked
  | @write value authorized name asked =>
      rw [(handleMetricWrite_changed _ _).published] at h
      exact .inr (.inl ⟨value, asked, (List.singleton_inj.mp (List.append_cancel_left h)).symm⟩)
  | delete name method existed =>
      rw [(handleMetricDelete_changed existed).2.published] at h
      exact .inr (.inr ⟨method, (List.singleton_inj.mp (List.append_cancel_left h)).symm⟩)
  | unauthorized | refused | metrics | health => exact (hunchanged h).elim

/-- What is published for a POST, with placeholders off, is the body. -/
theorem payload_of_published {cfg : Config} {env : Surroundings} {s : ServerState}
    {req : HttpRequest} {call : PublishCall} (hoff : cfg.eventPlaceholdersEnabled = false)
    (hpost : req.method = ascii "POST")
    (h : (route cfg env s req).2.publishCalls = s.publishCalls ++ [call]) :
    call.payload = req.body := by
  rcases call_of_published h with hevent | ⟨value, hvalue, -⟩ | ⟨hdelete, -⟩
  · obtain ⟨-, -, ⟨payload, hpayload, hfilled⟩, -⟩ := eventCall_ok hevent
    rw [eventPayload, if_pos hpost] at hpayload
    rw [hfilled, fillPlaceholders, hoff, ← Except.ok.inj hpayload]
    rfl
  · -- a POST has no value to write
    have hput : ascii "POST" ≠ ascii "PUT" := by decide
    have hget : ¬ (ascii "POST" = ascii "GET" ∧ cfg.simpleGet = true) := by
      intro h
      obtain ⟨hget, -⟩ := h
      exact absurd hget (by decide)
    rw [metricValue, hpost, if_neg hput, if_neg hget] at hvalue
    cases hvalue
  · rw [hpost] at hdelete
    exact absurd hdelete (by decide)

/-- A head and a body that two reads cut in two, with an interrupted read in between. -/
def splitBody : List Recv :=
  [.data (ascii "POST /event/a HTTP/1.1" ++ crlf ++ ascii "Content-Length: 2" ++ crlf ++ [13]),
    .data ([10] ++ ascii "h"), .interrupted, .data (ascii "i")]

/-- The request it makes. -/
def splitBodyRequest : HttpRequest where
  method := ascii "POST"
  path := ascii "/event/a"
  contentLength := 2
  body := ascii "hi"

end Nshmqtt
