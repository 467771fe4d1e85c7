import Nshmqtt.ContentLengthLines

/-!
# Parsing into a used record

`parse_http_request` fills a record that its caller passes in.  It resets the record
field by field, and two of the fields are not among those it resets: the overrides for
qos and retain, which are only written when their header line is there.

* `parseInto_eq` : the result is that of a fresh record, with the two overrides of the
  old one where the head has none;
* `parseInto_same_iff` : when what was in the record before does not matter.
-/

namespace Nshmqtt

open ByteStrings

/-- The two arguments that the parser writes to. -/
structure ParseArgs where
  req : HttpRequest := {}
  leftoverBody : Bytes := []
  deriving DecidableEq

/-- The arguments after an accepted request; the leftover is cleared first. -/
def parseInto (raw : Bytes) (before : ParseArgs) : Option ParseArgs :=
  let cleared : ParseArgs := { before with leftoverBody := [] }
  (parseHttpRequest raw cleared.req).map fun parsed => ⟨parsed.1, cleared.leftoverBody ++ parsed.2⟩

/-- The value of the last line with the given name. -/
def lastHeader (name : String) (lines : List Bytes) : Option Bytes :=
  (lines.filterMap (headerValue name)).getLast?

/-- What a record has after the lines, when it had the fields of `prior` before. -/
def carry (prior : HttpRequest) (lines : List Bytes) (req : HttpRequest) : HttpRequest :=
  { req with
    path := prior.path
    query := prior.query
    qosHeader := (lastHeader "x-mqtt-qos" lines).getD prior.qosHeader
    retainHeader := (lastHeader "x-mqtt-retain" lines).getD prior.retainHeader }

/-- A later line of a name wins. -/
theorem lastHeader_cons (name : String) (line : Bytes) (lines : List Bytes) (start : Bytes) :
    (lastHeader name (line :: lines)).getD start =
      (lastHeader name lines).getD ((headerValue name line).getD start) := by
  unfold lastHeader
  cases hvalue : headerValue name line with
  | none => rw [List.filterMap_cons_none hvalue, Option.getD_none]
  | some value =>
      rw [List.filterMap_cons_some hvalue, List.getLast?_cons, Option.getD_some, Option.getD_some]

/-- One line keeps the fields that it does not name. -/
theorem applyHeader_carry (prior req : HttpRequest) (line : Bytes) :
    applyHeader (carry prior [] req) line = (applyHeader req line).map (carry prior [line]) := by
  have hnil : ∀ name start, (lastHeader name []).getD start = start := fun _ _ => rfl
  have hline : ∀ name start, (lastHeader name [line]).getD start =
      (headerValue name line).getD start := fun name start => lastHeader_cons name line [] start
  unfold applyHeader carry
  simp only [hline, hnil, headerValue]
  cases find line [colon] 0 with
  | none => rfl
  | some i =>
      dsimp only
      generalize toLower (trimSpaces (substr line 0 i)) = name
      generalize trimSpaces (line.drop (i + 1)) = value
      by_cases hqos : name = ascii "x-mqtt-qos"
      · subst hqos
        rw [if_neg (by decide), if_neg (by decide), if_neg (by decide), if_neg (by decide),
          if_neg (by decide), if_pos rfl]
        rfl
      · by_cases hretain : name = ascii "x-mqtt-retain"
        · subst hretain
          rw [if_neg (by decide), if_neg (by decide), if_neg (by decide), if_neg (by decide),
            if_neg (by decide), if_neg (by decide), if_pos rfl]
          rfl
        · simp only [if_neg hqos, if_neg hretain, Option.getD_none]
          split_ifs
          · rfl
          · rfl
          · rw [Option.map_map]
            rfl
          · rfl
          · rfl
          · rfl
          · rfl

/-- The scan of the lines keeps them as well, up to the last line of their name. -/
theorem foldlM_carry (prior : HttpRequest) (lines : List Bytes) (req : HttpRequest) :
    lines.foldlM applyHeader (carry prior [] req) =
      (lines.foldlM applyHeader req).map (carry prior lines) := by
  have hnil : ∀ name start, (lastHeader name []).getD start = start := fun _ _ => rfl
  induction lines generalizing prior req with
  | nil => rfl
  | cons line lines ih =>
      rw [List.foldlM_cons, List.foldlM_cons, applyHeader_carry]
      cases applyHeader req line with
      | none => rfl
      | some next =>
          simp only [Option.map_some, Option.bind_eq_bind, Option.bind_some]
          have hnext : carry prior [line] next = carry (carry prior [line] next) [] next := rfl
          rw [hnext, ih]
          congr 1
          funext scanned
          unfold carry
          simp only [lastHeader_cons, hnil]

/-- The parse, with the scan as a fold over the lines of the head. -/
theorem parseHttpRequest_lines {raw : Bytes} {lineEnd : Nat} (hline : find raw crlf 0 = some lineEnd)
    (prior : HttpRequest) :
    parseHttpRequest raw prior =
      (parseRequestLine (substr raw 0 lineEnd)).bind fun line =>
        ((headerLines raw).foldlM applyHeader (carry prior [] { method := line.1 })).bind fun req =>
          (percentDecode (splitTarget line.2).1).bind fun path =>
            (parseQuery (splitTarget line.2).2).bind fun query =>
              some ({ req with path := path, query := query },
                match find raw headEnd lineEnd with
                | none => []
                | some i => raw.drop (i + 4)) := by
  obtain ⟨-, -, hpre, -⟩ := find_eq_some_iff.mp hline
  have hlines : headerLines raw =
      (completeLines (raw.drop (lineEnd + 2))).takeWhile fun line => !line.isEmpty := by
    rw [headerLines, completeLines_some hline, List.tail_cons]
  unfold parseHttpRequest
  simp only [hline, Option.bind_eq_bind, Option.bind_some, scanHeaders_eq_foldlM hpre, hlines]
  rfl

/-- **What survives** of the record is the two overrides, where the head has no line for
them. -/
theorem parseInto_eq (raw : Bytes) (before : ParseArgs) :
    parseInto raw before = (parseInto raw {}).map fun after => { after with
      req := { after.req with
        qosHeader := (lastHeader "x-mqtt-qos" (headerLines raw)).getD before.req.qosHeader
        retainHeader :=
          (lastHeader "x-mqtt-retain" (headerLines raw)).getD before.req.retainHeader } } := by
  unfold parseInto
  dsimp only
  cases hline : find raw crlf 0 with
  | none =>
      have hnone : ∀ prior, parseHttpRequest raw prior = none := by
        intro prior
        rw [parseHttpRequest, hline]
        rfl
      rw [hnone, hnone]
      rfl
  | some lineEnd =>
      rw [parseHttpRequest_lines hline, parseHttpRequest_lines hline]
      cases parseRequestLine (substr raw 0 lineEnd) with
      | none => rfl
      | some line =>
          simp only [Option.bind_some, foldlM_carry]
          cases (headerLines raw).foldlM applyHeader { method := line.1 } with
          | none => rfl
          | some req =>
              simp only [Option.map_some, Option.bind_some]
              cases percentDecode (splitTarget line.2).1 with
              | none => rfl
              | some path =>
                  cases parseQuery (splitTarget line.2).2 with
                  | none => rfl
                  | some query => rfl

/-- The head has a line with this name. -/
def HasHeader (raw : Bytes) (name : String) : Prop :=
  ∃ line ∈ headerLines raw, (headerValue name line).isSome = true

/-- There is a last line of a name when there is one. -/
theorem lastHeader_isSome_iff (raw : Bytes) (name : String) :
    (lastHeader name (headerLines raw)).isSome = true ↔ HasHeader raw name := by
  unfold lastHeader HasHeader
  rw [List.getLast?_isSome, Ne, List.filterMap_eq_nil_iff]
  simp [Option.isSome_iff_ne_none]

/-- A default does not matter where there is a value. -/
theorem getD_eq_getD_iff {α : Type} (o : Option α) (a b : α) :
    o.getD a = o.getD b ↔ o.isSome = true ∨ a = b := by
  cases o <;> simp

/-- **When the old contents do not matter**: two calls agree when each override has a line
in the head or is the same in both records. -/
theorem parseInto_same_iff {raw : Bytes} {before after : ParseArgs}
    (h : parseInto raw before = some after) (other : ParseArgs) :
    parseInto raw other = some after ↔
      (HasHeader raw "x-mqtt-qos" ∨ before.req.qosHeader = other.req.qosHeader) ∧
        (HasHeader raw "x-mqtt-retain" ∨ before.req.retainHeader = other.req.retainHeader) := by
  rw [parseInto_eq, Option.map_eq_some_iff] at h
  obtain ⟨fresh, hfresh, rfl⟩ := h
  rw [parseInto_eq, hfresh, Option.map_some, Option.some.injEq, ParseArgs.mk.injEq]
  simp only [HttpRequest.mk.injEq, true_and, and_true, ← lastHeader_isSome_iff,
    ← getD_eq_getD_iff]
  constructor
  · intro h
    exact ⟨h.1.symm, h.2.symm⟩
  · intro h
    exact ⟨h.1.symm, h.2.symm⟩

/-- A request that sets both overrides is read the same way into any record. -/
def overridingRequest : Bytes :=
  ascii "GET / HTTP/1.1" ++ crlf ++ ascii "X-Mqtt-Qos: 1" ++ crlf ++ ascii "X-Mqtt-Retain: true" ++
    crlf ++ crlf

/-- A request that sends both headers leaves nothing of the earlier one. -/
theorem parseInto_same_overriding :
    ∃ after, parseInto overridingRequest {} = some after ∧
      parseInto overridingRequest ⟨{ qosHeader := ascii "2" }, ascii "old"⟩ = some after := by
  have hparse : parseInto overridingRequest {} = some
      { req :=
          { method := ascii "GET", path := ascii "/", qosHeader := ascii "1",
            retainHeader := ascii "true" } } := by
    decide +kernel
  refine ⟨_, hparse, (parseInto_same_iff hparse _).mpr ?_⟩
  have hqos : HasHeader overridingRequest "x-mqtt-qos" :=
    (lastHeader_isSome_iff _ _).mp (by decide +kernel)
  have hretain : HasHeader overridingRequest "x-mqtt-retain" :=
    (lastHeader_isSome_iff _ _).mp (by decide +kernel)
  exact ⟨.inl hqos, .inl hretain⟩

/-- The qos of the request before is that of a request without one. -/
theorem parseInto_keeps_qos :
    ∃ after, parseInto (ascii "GET / HTTP/1.1" ++ headEnd) ⟨{ qosHeader := ascii "2" }, []⟩ =
        some after ∧
      after.req.qosHeader = ascii "2" ∧
      parseInto (ascii "GET / HTTP/1.1" ++ headEnd) {} ≠ some after :=
  ⟨⟨{ method := ascii "GET", path := ascii "/", qosHeader := ascii "2" }, []⟩,
    by decide +kernel, rfl, by decide +kernel⟩

end Nshmqtt
