import Nshmqtt.BodyFraming
import Nshmqtt.GeneratedValues
import Nshmqtt.PublishQueue
import Nshmqtt.RequestRoundTrip

/-!
# What the callers of `publish` promise

`run_job` passes a topic on as a C string and the length of a payload as an `int`.
Neither loses anything for the calls that the server makes: a decoded path has no
NUL, and a payload is limited by what the configuration allows a head and a body, and by
how much longer than its token a generated value is.
-/

namespace Nshmqtt

open ByteStrings DecimalText PublishQueue

/-- One byte in front of what was decoded. -/
theorem length_le_of_map_cons {c : UInt8} {decoded : Option Bytes} {s : Bytes} {n : Nat}
    (hrest : ∀ {rest}, decoded = some rest → rest.length ≤ n)
    (h : decoded.map (c :: ·) = some s) : s.length ≤ n + 1 := by
  obtain ⟨rest, hdecoded, rfl⟩ := Option.map_eq_some_iff.mp h
  exact Nat.succ_le_succ (hrest hdecoded)

/-- Decoding shortens. -/
theorem length_percentDecode_le {enc s : Bytes} (h : percentDecode enc = some s) :
    s.length ≤ enc.length := by
  fun_induction percentDecode enc generalizing s with
  | case1 => rw [← Option.some.inj h]
  | case2 rest ih => exact length_le_of_map_cons ih h
  | case4 =>
      rename_i ih
      have := length_le_of_map_cons ih h
      simp only [List.length_cons]
      omega
  | case8 c rest hplus hpercent hcontrol ih => exact length_le_of_map_cons ih h
  | case3 | case5 | case6 | case7 => cases h

/-- The pieces of a text are no longer than it. -/
theorem length_le_of_mem_splitOn {separator : UInt8} {text piece : Bytes}
    (h : piece ∈ text.splitOn separator) : piece.length ≤ text.length := by
  induction text generalizing piece with
  | nil =>
      rw [List.splitOn_nil, List.mem_singleton] at h
      rw [h]
  | cons c text ih =>
      rw [List.splitOn_cons_eq_if_modifyHead] at h
      split_ifs at h with hseparator
      · rcases List.mem_cons.mp h with rfl | h
        · exact Nat.zero_le _
        · exact Nat.le_succ_of_le (ih h)
      · cases hpieces : text.splitOn separator with
        | nil => exact absurd hpieces (List.splitOn_ne_nil _ _)
        | cons first rest =>
            rw [hpieces] at ih h
            rcases List.mem_cons.mp h with rfl | h
            · exact Nat.succ_le_succ (ih List.mem_cons_self)
            · exact Nat.le_succ_of_le (ih (List.mem_cons_of_mem _ h))

/-- The value of a parameter is no longer than its text. -/
theorem length_parsePair_le {text : Bytes} {pair : Bytes × Bytes}
    (h : parsePair text = some pair) : pair.2.length ≤ text.length := by
  unfold parsePair at h
  simp only [Option.bind_eq_bind, Option.bind_eq_some_iff] at h
  obtain ⟨key, -, value, hvalue, hpair⟩ := h
  cases hpair
  refine (length_percentDecode_le hvalue).trans ?_
  cases find text (ascii "=") 0 with
  | none => exact Nat.zero_le _
  | some eq => exact (List.drop_sublist _ _).length_le

theorem length_parseQuery_le {text : Bytes} {query : List (Bytes × Bytes)}
    (h : parseQuery text = some query) : ∀ pair ∈ query, pair.2.length ≤ text.length := by
  unfold parseQuery at h
  intro pair hpair
  obtain ⟨piece, hpiece, hparse⟩ := exists_of_mem_mapM h hpair
  exact (length_parsePair_le hparse).trans
    (length_le_of_mem_splitOn (List.mem_of_mem_filter hpiece))

/-- A header line does not touch the body. -/
theorem body_of_applyHeader {req req' : HttpRequest} {line : Bytes}
    (h : applyHeader req line = some req') : req'.body = req.body := by
  unfold applyHeader at h
  split at h
  · rw [← Option.some.inj h]
  · simp only at h
    split_ifs at h
    · rw [← Option.some.inj h]
    · rw [← Option.some.inj h]
    · obtain ⟨n, -, rfl⟩ := Option.map_eq_some_iff.mp h
      rfl
    all_goals rw [← Option.some.inj h]

theorem body_of_scanHeaders {raw : Bytes} {limit pos : Nat} {req req' : HttpRequest}
    (h : scanHeaders raw limit pos req = some req') : req'.body = req.body := by
  fun_induction scanHeaders raw limit pos req with
  | case4 pos req hpos next hfound hnext scanned happly ih =>
      rw [ih h, body_of_applyHeader happly]
  | case3 => cases h
  | case1 | case2 | case5 => rw [← Option.some.inj h]

/-- A parse leaves the body empty, and its values are no longer than the text. -/
theorem sizes_of_parse {raw leftover : Bytes} {prior req : HttpRequest}
    (h : parseHttpRequest raw prior = some (req, leftover)) :
    req.body = [] ∧ ∀ pair ∈ req.query, pair.2.length ≤ raw.length := by
  unfold parseHttpRequest at h
  simp only [Option.bind_eq_bind, Option.bind_eq_some_iff] at h
  obtain ⟨lineEnd, -, ⟨method, target⟩, hline, scanned, hscan, path, -, query, hquery, hreq⟩ := h
  cases hreq
  refine ⟨body_of_scanHeaders hscan, fun pair hpair => ?_⟩
  have htarget : target.length ≤ raw.length := by
    unfold parseRequestLine at hline
    simp only [Option.bind_eq_bind, Option.bind_eq_some_iff] at hline
    obtain ⟨sp1, -, sp2, -, hline⟩ := hline
    split_ifs at hline
    cases hline
    simp only [substr, List.length_take, List.length_drop]
    omega
  have hencoded : (splitTarget target).2.length ≤ target.length := by
    unfold splitTarget
    cases find target (ascii "?") 0 with
    | none => exact Nat.zero_le _
    | some qpos => exact (List.drop_sublist _ _).length_le
  exact ((length_parseQuery_le hquery pair hpair).trans hencoded).trans htarget

/-- A request that is routed was parsed from a head within the limit. -/
theorem parsed_of_receive {cfg : Config} {socket : List Recv} {req : HttpRequest}
    (h : receive cfg socket = .request req) :
    ∃ raw parsed leftover, raw.length ≤ cfg.maxRequestBytes ∧
      parseHttpRequest raw {} = some (parsed, leftover) ∧ req.path = parsed.path ∧
      req.query = parsed.query ∧ (req.contentLength ≤ 0 → req.body = parsed.body) := by
  simp only [receive] at h
  cases hread : readHttpHead cfg.maxRequestBytes socket with
  | mk result read =>
      obtain ⟨raw, rest⟩ := read
      rw [hread] at h
      cases result with
      | ok =>
          obtain ⟨-, hdone, hlength⟩ := readUntil_ok hread
          have hraw : raw.length ≤ cfg.maxRequestBytes := by
            rcases hlength with rfl | hle
            · exact Nat.zero_le _
            · exact hle
          cases hparse : parseHttpRequest raw {} with
          | none => simp [hparse] at h
          | some result =>
              obtain ⟨parsed, leftover⟩ := result
              simp only [hparse, receiveParsed] at h
              split_ifs at h with hchunked hlarge hbody
              · obtain ⟨body, rfl, -⟩ := receiveBody_request h
                exact ⟨raw, parsed, leftover, hraw, hparse, rfl, rfl,
                  fun hnone => absurd hbody (Int.not_lt.mpr hnone)⟩
              · cases h
                exact ⟨raw, req, leftover, hraw, hparse, rfl, rfl, fun _ => rfl⟩
      | _ => cases h

/-- How many times as long as its token a generated value can be. -/
def growth (token : Bytes) : Nat :=
  if token = ascii "NSHMQTT_RANDOM_HEX64" then 4
  else if token = ascii "NSHMQTT_RANDOM_HEX32" ∨ token = ascii "NSHMQTT_RANDOM_UUID" ∨
    token = ascii "NSHMQTT_TIMESTAMP_S" then 2
  else 1

def BoundedValues (generate : Bytes → Nat → Bytes) : Prop :=
  ∀ token ∈ placeholderTokens, ∀ count, (generate token count).length ≤ growth token * token.length

/-- Only what is behind the position can grow. -/
theorem length_replaceFrom_le {token : Bytes} {generate : Nat → Bytes} {factor : Nat}
    (hfactor : 0 < factor) (hvalues : ∀ count, (generate count).length ≤ factor * token.length)
    (text : Bytes) (pos count : Nat) (hpos : pos ≤ text.length) :
    (replaceFrom token generate text pos count).length ≤ pos + factor * (text.length - pos) := by
  fun_induction replaceFrom token generate text pos count with
  | case1 text pos count htoken | case2 text pos count htoken hfound =>
      have hgrow := Nat.le_mul_of_pos_left (text.length - pos) hfactor
      omega
  | case3 text pos count htoken k hfound value ih =>
      obtain ⟨hafter, hinside⟩ := find_length hfound
      have hlength : (text.take k ++ value ++ text.drop (k + token.length)).length =
          k + value.length + (text.length - (k + token.length)) := by
        simp only [List.length_append, List.length_take, List.length_drop]
        omega
      have hvalue : value.length ≤ factor * token.length := hvalues count
      have hrest := ih (by omega)
      rw [hlength, Nat.add_sub_cancel_left] at hrest
      have hsplit : factor * (text.length - pos) = factor * (k - pos) + factor * token.length +
          factor * (text.length - (k + token.length)) := by
        rw [← Nat.mul_add, ← Nat.mul_add]
        congr 1
        omega
      have hgrow := Nat.le_mul_of_pos_left (k - pos) hfactor
      omega

/-- The passes together make a payload at most 32 times as long. -/
theorem length_substitute_le {generate : Bytes → Nat → Bytes} (h : BoundedValues generate)
    (payload : Bytes) :
    (substituteEventPlaceholders generate payload).length ≤ 32 * payload.length := by
  have hproduct : (placeholderTokens.map growth).prod = 32 := by decide +kernel
  have hpositive : ∀ token, 0 < growth token := by
    intro token
    unfold growth
    split_ifs <;> decide
  rw [← hproduct, substituteEventPlaceholders]
  unfold BoundedValues at h
  generalize placeholderTokens = tokens at h
  induction tokens generalizing payload with
  | nil => simp
  | cons token tokens ih =>
      rw [List.forall_mem_cons] at h
      have hfirst := length_replaceFrom_le (hpositive token) h.1 payload 0 0 (Nat.zero_le _)
      rw [Nat.zero_add, Nat.sub_zero] at hfirst
      rw [List.foldl_cons, List.map_cons, List.prod_cons]
      calc _ ≤ (tokens.map growth).prod *
            (replaceAllWithFreshValues payload token (generate token)).length := ih _ h.2
        _ ≤ (tokens.map growth).prod * (growth token * payload.length) :=
            Nat.mul_le_mul_left _ hfirst
        _ = growth token * (tokens.map growth).prod * payload.length := by
            rw [Nat.mul_left_comm, Nat.mul_assoc]

/-- A number of nanoseconds that fits 64 bits, in any unit. -/
theorem length_timestampString_le {nanoseconds now : Int} (hnow : now.natAbs < 2 ^ 63) :
    (timestampString nanoseconds now).length ≤ 20 := by
  have hsmall : (now.tdiv nanoseconds).natAbs < 10 ^ (18 + 1) := by
    rw [Int.natAbs_tdiv]
    exact (Nat.div_le_self now.natAbs nanoseconds.natAbs).trans_lt (by omega)
  have hdigits := length_decimalText_le hsmall
  unfold timestampString integerText
  split_ifs
  · rw [List.length_cons]
    omega
  · omega

/-- Values of this shape are bounded, where an integer is a time in some unit. -/
def Shape.IsBounded (token : Bytes) : Shape → Prop
  | .pattern form => form.length ≤ growth token * token.length
  | .integer => 20 ≤ growth token * token.length ∧
      ∀ m, ∃ nanoseconds, generatedValue token m = timestampString nanoseconds m.now

/-- **The generated values** are bounded while the clock fits 64 bits. -/
theorem boundedValues_generated {moments : Bytes → Nat → Moment}
    (hclock : ∀ token count, (moments token count).now.natAbs < 2 ^ 63) :
    BoundedValues (generatedValues moments) := by
  have hforms : ∀ entry ∈ valueShapes, entry.2.IsBounded entry.1 := by
    simp only [valueShapes, List.forall_mem_cons, Shape.IsBounded]
    refine ⟨by decide +kernel, by decide +kernel, by decide +kernel, by decide +kernel,
      by decide +kernel, ⟨by decide +kernel, fun m => ⟨_, rfl⟩⟩,
      ⟨by decide +kernel, fun m => ⟨_, rfl⟩⟩, ⟨by decide +kernel, fun m => ⟨_, rfl⟩⟩,
      ⟨by decide +kernel, fun m => ⟨_, rfl⟩⟩, by decide +kernel, by decide +kernel,
      by decide +kernel, List.forall_mem_nil _⟩
  have hnames : placeholderTokens = valueShapes.map Prod.fst := rfl
  intro token htoken count
  rw [hnames] at htoken
  obtain ⟨⟨name, shape⟩, hentry, rfl⟩ := List.mem_map.mp htoken
  have hfits := shapedValues_generated moments _ hentry count
  have hform := hforms _ hentry
  cases shape with
  | pattern form =>
      have hlength : form.length = (generatedValues moments name count).length :=
        List.Forall₂.length_eq hfits
      exact hlength ▸ hform
  | integer =>
      obtain ⟨hbound, htimestamp⟩ := hform
      obtain ⟨nanoseconds, hvalue⟩ := htimestamp (moments name count)
      have hshort := @length_timestampString_le nanoseconds _ (hclock name count)
      rw [← hvalue] at hshort
      exact hshort.trans hbound

variable {cfg : Config} {env : Surroundings} {s : ServerState} {socket : List Recv}
  {req : HttpRequest} {call : PublishCall}

/-- What follows a part of the path has no NUL that the path has not. -/
theorem nulFree_pathAfter (start : Bytes) {path : Bytes} (h : NulFree path) :
    NulFree (pathAfter start path) := by
  unfold pathAfter
  split_ifs
  · nofun
  · exact fun c hc => h c (List.mem_of_mem_drop hc)

/-- The topic of every call is a part of the path. -/
theorem nulFree_topic (hpath : NulFree req.path)
    (hcall : (route cfg env s req).2.publishCalls = s.publishCalls ++ [call]) :
    NulFree call.topic := by
  rcases call_of_published hcall with hevent | ⟨value, -, rfl⟩ | ⟨-, rfl⟩
  · rw [← (eventCall_ok hevent).1]
    exact nulFree_pathAfter _ hpath
  · exact nulFree_pathAfter _ hpath
  · exact nulFree_pathAfter _ hpath

/-- A payload is a body or the value of a parameter, filled in, or a formatted number. -/
theorem length_payload_le {bound : Nat}
    (hvalues : cfg.eventPlaceholdersEnabled = true → BoundedValues env.placeholders)
    (hbody : req.body.length ≤ bound) (hquery : ∀ pair ∈ req.query, pair.2.length ≤ bound)
    (hbound : 16 ≤ bound)
    (hcall : (route cfg env s req).2.publishCalls = s.publishCalls ++ [call]) :
    call.payload.length ≤ 32 * bound := by
  rcases call_of_published hcall with hevent | ⟨value, -, rfl⟩ | ⟨-, rfl⟩
  · obtain ⟨-, -, ⟨payload, hpayload, hfilled⟩, -⟩ := eventCall_ok hevent
    have hlength : payload.length ≤ bound := by
      cases carriesPayload_of_eventPayload hpayload with
      | post method => exact hbody
      | get method simple value param =>
          obtain ⟨pair, hfound, rfl⟩ := Option.map_eq_some_iff.mp param
          exact hquery pair (List.mem_of_find?_eq_some hfound)
    rw [hfilled, fillPlaceholders]
    split_ifs with henabled
    · exact (length_substitute_le (hvalues henabled) payload).trans (Nat.mul_le_mul_left 32 hlength)
    · omega
  · have hnumber := @length_formatGeneral_le 9 (by decide) value
    exact (hnumber.trans hbound).trans (Nat.le_mul_of_pos_left bound (by decide))
  · exact Nat.zero_le _

/-- **The promise is kept** by every request that a connection routes, within the limits
that the configuration allows for a head and a body. -/
theorem deliverable_of_received (hhead : cfg.maxRequestBytes ≤ 2 ^ 20)
    (hbody : cfg.maxBodyBytes ≤ 2 ^ 24)
    (hvalues : cfg.eventPlaceholdersEnabled = true → BoundedValues env.placeholders)
    (hreceive : receive cfg socket = .request req)
    (hcall : (route cfg env s req).2.publishCalls = s.publishCalls ++ [call]) :
    Deliverable call := by
  obtain ⟨raw, parsed, leftover, hraw, hparse, hpath, hquery, hempty⟩ :=
    parsed_of_receive hreceive
  obtain ⟨hnone, hsizes⟩ := sizes_of_parse hparse
  have hplain : NulFree req.path := by
    rw [hpath]
    exact (nulFree_parseHttpRequest hparse).1
  have hlength : req.body.length ≤ 2 ^ 24 := by
    by_cases hannounced : 0 < req.contentLength
    · obtain ⟨hlimit, -, -, hexact, -⟩ := receive_request hreceive hannounced
      omega
    · rw [hempty (Int.not_lt.mp hannounced), hnone]
      exact Nat.zero_le _
  have hshort : ∀ pair ∈ req.query, pair.2.length ≤ 2 ^ 24 := by
    intro pair hpair
    rw [hquery] at hpair
    have hvalue := hsizes pair hpair
    omega
  have hpayload := length_payload_le hvalues hlength hshort (by decide) hcall
  exact ⟨nulFree_topic hplain hcall, by omega⟩

end Nshmqtt
