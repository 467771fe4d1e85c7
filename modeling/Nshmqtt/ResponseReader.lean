import Nshmqtt.DecimalRoundTrip

/-!
# Reading an HTTP response

A client's reader of one HTTP/1.1 response that is framed by its length: the status
line, the header fields up to the blank line, and as many bytes of body as the one
length field says.  The answer to a `HEAD` request has the fields and no body.

* `readResponse_text`: what is written in that form is read back, with the rest;
* `readResponse_append`: a response that was read stays the same when more bytes come;
* `readResponse_of_proper_prefix`: no proper start of a written response is one.
-/

namespace HttpReader

open ByteStrings DecimalText

def lineEnd : Bytes := [13, 10]

/-- The bytes up to the first line end, and the rest behind it. -/
def readLine : Bytes → Option (Bytes × Bytes)
  | [] => none
  | c :: rest =>
      if c = 13 ∧ rest.head? = some 10 then some ([], rest.tail)
      else (readLine rest).map fun line => (c :: line.1, line.2)

theorem readLine_lineEnd (rest : Bytes) : readLine (lineEnd ++ rest) = some ([], rest) :=
  rfl

/-- A line without a carriage return is read up to the line end behind it. -/
theorem readLine_text {line : Bytes} (hline : ∀ c ∈ line, c ≠ 13) (rest : Bytes) :
    readLine (line ++ lineEnd ++ rest) = some (line, rest) := by
  induction line with
  | nil => exact readLine_lineEnd rest
  | cons c line ih =>
      have hc : c ≠ 13 := hline c List.mem_cons_self
      rw [List.cons_append, List.cons_append, readLine, if_neg fun h => hc h.1,
        ih fun d hd => hline d (List.mem_cons_of_mem _ hd)]
      rfl

/-- More bytes behind a line do not change it. -/
theorem readLine_append {s line rest : Bytes} (h : readLine s = some (line, rest)) (more : Bytes) :
    readLine (s ++ more) = some (line, rest ++ more) := by
  induction s generalizing line with
  | nil => cases h
  | cons c s ih =>
      rw [readLine] at h
      rw [List.cons_append, readLine]
      split_ifs at h with hend
      · obtain ⟨hc, hhead⟩ := hend
        cases s with
        | nil => cases hhead
        | cons d s =>
            rw [List.cons_append, if_pos ⟨hc, hhead⟩]
            cases h
            rfl
      · obtain ⟨found, hfound, heq⟩ := Option.map_eq_some_iff.mp h
        cases heq
        have hstay : ¬ (c = 13 ∧ (s ++ more).head? = some 10) := by
          cases s with
          | nil => cases hfound
          | cons d s => exact hend
        rw [if_neg hstay, ih hfound]
        rfl

/-- What is behind a line is shorter. -/
theorem length_of_readLine {s line rest : Bytes} (h : readLine s = some (line, rest)) :
    rest.length < s.length := by
  induction s generalizing line with
  | nil => cases h
  | cons c s ih =>
      rw [readLine] at h
      split_ifs at h with hend
      · cases h
        rw [List.length_tail, List.length_cons]
        omega
      · obtain ⟨found, hfound, heq⟩ := Option.map_eq_some_iff.mp h
        cases heq
        exact (ih hfound).trans (Nat.lt_succ_self _)

/-- Name and value of a header field, the value without the blanks around it. -/
def readField (line : Bytes) : Option (Bytes × Bytes) :=
  let name := line.takeWhile (· != colon)
  if name = [] ∨ name = line then none
  else some (name, trimBoth (· == blank) (line.drop (name.length + 1)))

/-- The fields up to the blank line, and the rest behind it. -/
def readFields (s : Bytes) : Option (List (Bytes × Bytes) × Bytes) :=
  match _hline : readLine s with
  | none => none
  | some (line, rest) =>
      if line = [] then some ([], rest)
      else
        match readField line with
        | none => none
        | some field => (readFields rest).map fun later => (field :: later.1, later.2)
  termination_by s.length
  decreasing_by exact length_of_readLine _hline

/-- The fields end at an empty line. -/
theorem readFields_eq (s : Bytes) :
    readFields s = (readLine s).bind fun found =>
      if found.1 = [] then some ([], found.2)
      else (readField found.1).bind fun field =>
        (readFields found.2).map fun later => (field :: later.1, later.2) := by
  rw [readFields]
  split
  · rename_i hline
    rw [hline]
    rfl
  · rename_i line rest hline
    rw [hline, Option.bind_some]
    dsimp only
    split_ifs
    · rfl
    · cases readField line <;> rfl

/-- More bytes behind the fields do not matter. -/
theorem readFields_append {s rest : Bytes} {fields : List (Bytes × Bytes)}
    (h : readFields s = some (fields, rest)) (more : Bytes) :
    readFields (s ++ more) = some (fields, rest ++ more) := by
  induction hn : s.length using Nat.strongRecOn generalizing s fields with
  | _ n ih =>
      rw [readFields_eq] at h
      rw [readFields_eq]
      obtain ⟨found, hfound, h⟩ := Option.bind_eq_some_iff.mp h
      rw [readLine_append hfound more, Option.bind_some]
      dsimp only
      split_ifs at h ⊢ with hblank
      · cases h
        rfl
      · obtain ⟨field, hfield, h⟩ := Option.bind_eq_some_iff.mp h
        obtain ⟨later, hlater, heq⟩ := Option.map_eq_some_iff.mp h
        cases heq
        rw [hfield, Option.bind_some,
          ih found.2.length (hn ▸ length_of_readLine hfound) hlater rfl]
        rfl

/-- A field that can be written on a line of its own. -/
structure PlainField (field : Bytes × Bytes) : Prop where
  name_ne_nil : field.1 ≠ []
  name_bytes : ∀ c ∈ field.1, c ≠ 13 ∧ c ≠ colon
  value_bytes : ∀ c ∈ field.2, c ≠ 13
  value_trimmed : Trimmed (· == blank) field.2

def fieldLine (field : Bytes × Bytes) : Bytes := field.1 ++ ascii ": " ++ field.2

/-- Fields as they are written, without the blank line. -/
def fieldsText (fields : List (Bytes × Bytes)) : Bytes :=
  (fields.map fun field => fieldLine field ++ lineEnd).flatten

/-- The line of a field, in the parts that are read. -/
theorem fieldLine_eq (field : Bytes × Bytes) :
    fieldLine field = field.1 ++ colon :: ([blank] ++ field.2) := by
  rw [fieldLine, List.append_assoc]
  rfl

/-- A plain field is read back. -/
theorem readField_fieldLine {field : Bytes × Bytes} (h : PlainField field) :
    readField (fieldLine field) = some field := by
  have hcolon : HeadNot (· != colon) (colon :: ([blank] ++ field.2)) := by
    intro c hc
    rw [← Option.some.inj hc]
    rfl
  have hname : (fieldLine field).takeWhile (· != colon) = field.1 := by
    rw [fieldLine_eq]
    exact (span_digits (fun c hc => bne_iff_ne.mpr (h.name_bytes c hc).2) hcolon).1
  have hne : field.1 ≠ fieldLine field := by
    intro heq
    have hlength := congrArg List.length heq
    rw [fieldLine_eq, List.length_append, List.length_cons] at hlength
    omega
  have hvalue : (fieldLine field).drop (field.1.length + 1) = [blank] ++ field.2 := by
    rw [fieldLine_eq, drop_separator]
  have htrim := @trimBoth_eq (· == blank) [blank] _ [] (List.forall_mem_singleton.mpr rfl)
    (List.forall_mem_nil _) h.value_trimmed
  rw [List.append_nil] at htrim
  unfold readField
  simp only [hname]
  rw [if_neg (not_or.mpr ⟨h.name_ne_nil, hne⟩), hvalue, htrim]

/-- A field stays on its line. -/
theorem fieldLine_bytes {field : Bytes × Bytes} (h : PlainField field) :
    ∀ c ∈ fieldLine field, c ≠ 13 := by
  intro c hc
  rw [fieldLine_eq, List.mem_append, List.mem_cons, List.mem_append, List.mem_singleton] at hc
  rcases hc with hc | rfl | rfl | hc
  · exact (h.name_bytes c hc).1
  · decide
  · decide
  · exact h.value_bytes c hc

/-- **Written fields are read back**, up to the blank line. -/
theorem readFields_text {fields : List (Bytes × Bytes)} (h : ∀ field ∈ fields, PlainField field)
    (rest : Bytes) : readFields (fieldsText fields ++ lineEnd ++ rest) = some (fields, rest) := by
  induction fields with
  | nil =>
      rw [readFields_eq, fieldsText, List.map_nil, List.flatten_nil, List.nil_append,
        readLine_lineEnd]
      rfl
  | cons field fields ih =>
      have hfield := h field List.mem_cons_self
      have hne : fieldLine field ≠ [] := by
        rw [fieldLine_eq]
        exact List.append_ne_nil_of_right_ne_nil _ (List.cons_ne_nil _ _)
      have hsplit : fieldsText (field :: fields) ++ lineEnd ++ rest =
          fieldLine field ++ lineEnd ++ (fieldsText fields ++ lineEnd ++ rest) := by
        simp only [fieldsText, List.map_cons, List.flatten_cons, List.append_assoc]
      rw [hsplit, readFields_eq, readLine_text (fieldLine_bytes hfield), Option.bind_some]
      simp only [if_neg hne]
      rw [readField_fieldLine hfield, Option.bind_some,
        ih fun other hother => h other (List.mem_cons_of_mem _ hother)]
      rfl

structure Response where
  status : Nat
  reason : Bytes
  fields : List (Bytes × Bytes)
  body : Bytes
  deriving DecidableEq

def statusLine (status : Nat) (reason : Bytes) : Bytes :=
  ascii "HTTP/1.1 " ++ decimalText status ++ [blank] ++ reason

/-- Status and reason of a status line: three digits and a text. -/
def readStatusLine (line : Bytes) : Option (Nat × Bytes) :=
  if line.take 9 = ascii "HTTP/1.1 " then
    let digits := (line.drop 9).take 3
    if digits.length = 3 ∧ digits.all isdigit ∧ (line.drop 12).head? = some blank then
      some (digitsValue 10 digits, line.drop 13)
    else none
  else none

/-- The length that the fields announce: exactly one field does, with digits alone. -/
def bodyLengthField (fields : List (Bytes × Bytes)) : Option Nat :=
  match fields.filter fun field => toLower field.1 = ascii "content-length" with
  | [field] => if field.2 ≠ [] ∧ field.2.all isdigit then some (digitsValue 10 field.2) else none
  | _ => none

/-- One response and the rest of the bytes; `none` when it is malformed or not all
there.  `toHead` is set for the answer to a `HEAD` request. -/
def readResponse (toHead : Bool) (s : Bytes) : Option (Response × Bytes) := do
  let (line, rest) ← readLine s
  let (status, reason) ← readStatusLine line
  let (fields, rest) ← readFields rest
  let length ← bodyLengthField fields
  if toHead then some (⟨status, reason, fields, []⟩, rest)
  else if rest.length < length then none
  else some (⟨status, reason, fields, rest.take length⟩, rest.drop length)

/-- What can be written as a response of this form. -/
structure Writable (r : Response) (toHead : Bool) : Prop where
  status : 100 ≤ r.status ∧ r.status < 1000
  reason : ∀ c ∈ r.reason, c ≠ 13
  fields : ∀ field ∈ r.fields, PlainField field
  length : ∃ n, bodyLengthField r.fields = some n ∧
    if toHead then r.body = [] else r.body.length = n

def responseText (r : Response) : Bytes :=
  statusLine r.status r.reason ++ lineEnd ++ fieldsText r.fields ++ lineEnd ++ r.body

/-- A status line is read back. -/
theorem readStatusLine_statusLine {status : Nat} (hstatus : 100 ≤ status ∧ status < 1000)
    (reason : Bytes) : readStatusLine (statusLine status reason) = some (status, reason) := by
  have hlength : (decimalText status).length = 3 :=
    length_decimalText (k := 2) hstatus.1 hstatus.2
  have hstart : (ascii "HTTP/1.1 ").length = 9 := rfl
  have hdrop : (statusLine status reason).drop 9 = decimalText status ++ blank :: reason := by
    rw [statusLine, List.append_assoc, List.append_assoc, ← hstart, List.drop_left]
    rfl
  have htake : (statusLine status reason).take 9 = ascii "HTTP/1.1 " := by
    rw [statusLine, List.append_assoc, List.append_assoc, ← hstart, List.take_left]
  have hdigits : ((statusLine status reason).drop 9).take 3 = decimalText status := by
    rw [hdrop, ← hlength, List.take_left]
  have hall : (decimalText status).all isdigit = true :=
    List.all_eq_true.mpr fun c hc => isdigit_of_mem_decimalText hc
  have hblank : (statusLine status reason).drop 12 = blank :: reason := by
    rw [show 12 = 9 + 3 from rfl, ← List.drop_drop, hdrop, ← hlength, List.drop_left]
  have hreason : (statusLine status reason).drop 13 = reason := by
    rw [show 13 = 12 + 1 from rfl, ← List.drop_drop, hblank, List.drop_one, List.tail_cons]
  unfold readStatusLine
  simp only [htake, if_true, hdigits, hlength, hall, hblank, List.head?_cons, and_self, hreason,
    digitsValue_decimalText]

theorem statusLine_bytes {status : Nat} {reason : Bytes} (hreason : ∀ c ∈ reason, c ≠ 13) :
    ∀ c ∈ statusLine status reason, c ≠ 13 := by
  intro c hc
  rw [statusLine, List.mem_append, List.mem_append, List.mem_append, List.mem_singleton] at hc
  rcases hc with ((hc | hc) | rfl) | hc
  · have hplain : (ascii "HTTP/1.1 ").all (· != 13) = true := rfl
    exact bne_iff_ne.mp (List.all_eq_true.mp hplain c hc)
  · intro heq
    rw [heq] at hc
    exact absurd (isdigit_of_mem_decimalText hc) (by decide)
  · decide
  · exact hreason c hc

/-- **A written response is read back**, and what follows it is left. -/
theorem readResponse_text {r : Response} {toHead : Bool} (h : Writable r toHead) (rest : Bytes) :
    readResponse toHead (responseText r ++ rest) = some (r, rest) := by
  obtain ⟨n, hn, hbody⟩ := h.length
  have hsplit : responseText r ++ rest = statusLine r.status r.reason ++ lineEnd ++
      (fieldsText r.fields ++ lineEnd ++ (r.body ++ rest)) := by
    simp only [responseText, List.append_assoc]
  unfold readResponse
  rw [hsplit, readLine_text (statusLine_bytes h.reason)]
  simp only [Option.bind_eq_bind, Option.bind_some, readStatusLine_statusLine h.status,
    readFields_text h.fields, hn]
  cases toHead with
  | true =>
      obtain ⟨status, reason, fields, body⟩ := r
      simp only [if_true] at hbody ⊢
      rw [hbody, List.nil_append]
  | false =>
      simp only [Bool.false_eq_true, if_false] at hbody ⊢
      have hlong : ¬ (r.body ++ rest).length < n := by
        rw [List.length_append]
        omega
      rw [if_neg hlong, ← hbody, List.take_left, List.drop_left]

/-- A response that was read stays the same when more bytes come. -/
theorem readResponse_append {toHead : Bool} {s rest : Bytes} {r : Response}
    (h : readResponse toHead s = some (r, rest)) (more : Bytes) :
    readResponse toHead (s ++ more) = some (r, rest ++ more) := by
  unfold readResponse at h ⊢
  simp only [Option.bind_eq_bind] at h ⊢
  obtain ⟨line, hline, h⟩ := Option.bind_eq_some_iff.mp h
  obtain ⟨status, hstatus, h⟩ := Option.bind_eq_some_iff.mp h
  obtain ⟨fields, hfields, h⟩ := Option.bind_eq_some_iff.mp h
  obtain ⟨length, hlength, h⟩ := Option.bind_eq_some_iff.mp h
  simp only [readLine_append hline more, Option.bind_some, hstatus,
    readFields_append hfields more, hlength]
  split_ifs at h ⊢ with hhead hlonger hshort
  · cases h
    rfl
  · rw [List.length_append] at hlonger
    omega
  · cases h
    rw [List.take_append_of_le_length (by omega), List.drop_append_of_le_length (by omega)]

/-- **No start of a response is one**: as long as bytes are missing, the client knows. -/
theorem readResponse_of_proper_prefix {r : Response} {toHead : Bool} (h : Writable r toHead)
    {start : Bytes} (hstart : start <+: responseText r) (hproper : start ≠ responseText r) :
    readResponse toHead start = none := by
  obtain ⟨more, hmore⟩ := hstart
  by_contra hsome
  obtain ⟨⟨r', rest⟩, hread⟩ := Option.ne_none_iff_exists'.mp hsome
  have hwhole := readResponse_append hread more
  have htext := readResponse_text h []
  rw [List.append_nil] at htext
  rw [hmore, htext, Option.some.injEq, Prod.mk.injEq] at hwhole
  have hnil : more = [] := (List.append_eq_nil_iff.mp hwhole.2.symm).2
  rw [hnil, List.append_nil] at hmore
  exact hproper hmore

end HttpReader
