import Nshmqtt.Http

/-!
# Round trip of requests

A request is written down with its path, keys and values percent-encoded, header
lines in any order with blanks around names and values, and any bytes as its body.
Parsing gives it back.  The written forms carry the conditions on their parts, so
the parts of a form are never in doubt.
-/

namespace Nshmqtt

open ByteStrings DecimalText

/-- A string and a percent-encoding of it: a byte stands for itself where `literal`
allows that, or is written as two hexadecimal digits. -/
inductive PercentEncodes (literal : UInt8 → Bool) : Bytes → Bytes → Prop
  | nil : PercentEncodes literal [] []
  | plain {c : UInt8} {s enc : Bytes} (allowed : literal c = true)
      (rest : PercentEncodes literal s enc) : PercentEncodes literal (c :: s) (c :: enc)
  | escaped {c high low : UInt8} {hi lo : Nat} {s enc : Bytes} (highValue : hexValue high = some hi)
      (lowValue : hexValue low = some lo) (value : c.toNat = 16 * hi + lo) (nonzero : c ≠ 0)
      (rest : PercentEncodes literal s enc) :
      PercentEncodes literal (c :: s) (37 :: high :: low :: enc)

/-- No control byte, no blank, and without a meaning of its own to the decoder. -/
def isPlainByte (c : UInt8) : Bool := 0x20 < c && c != 0x7f && c != 37 && c != plus

/-- A plain byte means itself in a target. -/
theorem isPlainByte_spec (c : UInt8) : isPlainByte c = true →
    c ≠ plus ∧ c ≠ 37 ∧ ¬ (c < 0x20 ∨ c = 0x7f) ∧ c ≠ blank :=
  forall_byte (p := fun c => isPlainByte c = true →
    c ≠ plus ∧ c ≠ 37 ∧ ¬ (c < 0x20 ∨ c = 0x7f) ∧ c ≠ blank) (by decide +kernel) c

/-- A digit has four bits. -/
theorem hexValue_lt {c : UInt8} {v : Nat} (h : hexValue c = some v) : v < 16 := by
  have hall : (hexValue c).all (· < 16) = true :=
    forall_byte (p := fun c => (hexValue c).all (· < 16) = true) (by decide +kernel) c
  simpa [h] using hall

/-- A hexadecimal digit is plain, and separates nothing. -/
theorem isPlainByte_of_hexValue {c : UInt8} {v : Nat} (h : hexValue c = some v) :
    isPlainByte c = true ∧ c ≠ 63 ∧ c ≠ 38 ∧ c ≠ 61 := by
  have hall : (hexValue c).isSome = true → isPlainByte c = true ∧ c ≠ 63 ∧ c ≠ 38 ∧ c ≠ 61 :=
    forall_byte (p := fun c => (hexValue c).isSome = true →
      isPlainByte c = true ∧ c ≠ 63 ∧ c ≠ 38 ∧ c ≠ 61) (by decide +kernel) c
  exact hall (by simp [h])

theorem shiftLeft_or_eq {hi lo : Nat} (hlo : lo < 16) : hi <<< 4 ||| lo = 16 * hi + lo := by
  rw [← Nat.shiftLeft_add_eq_or_of_lt (i := 4) hlo, Nat.shiftLeft_eq, Nat.mul_comm]

variable {literal : UInt8 → Bool} {s enc : Bytes}

/-- **Decoding** an encoded string gives it back. -/
theorem percentDecode_encodes (hliteral : ∀ c, literal c = true → isPlainByte c = true)
    (h : PercentEncodes literal s enc) : percentDecode enc = some s := by
  induction h with
  | nil => rfl
  | plain allowed rest ih =>
      obtain ⟨hplus, hpercent, hcontrol, -⟩ := isPlainByte_spec _ (hliteral _ allowed)
      rw [percentDecode.eq_def]
      simp only [if_neg hplus, if_neg hpercent, if_neg hcontrol, ih, Option.map_some]
  | @escaped c high low hi lo s enc highValue lowValue value nonzero rest ih =>
      have hdecoded : UInt8.ofNat (hi <<< 4 ||| lo) = c := by
        rw [shiftLeft_or_eq (hexValue_lt lowValue), ← value, UInt8.ofNat_toNat]
      rw [percentDecode, if_neg (by decide), if_pos rfl]
      simp only [highValue, lowValue, hdecoded]
      rw [if_neg nonzero, ih]
      rfl

/-- Every string without NUL has an encoding. -/
theorem exists_encodes (literal : UInt8 → Bool) {s : Bytes} (hs : ∀ c ∈ s, c ≠ 0) :
    ∃ enc, PercentEncodes literal s enc := by
  induction s with
  | nil => exact ⟨[], .nil⟩
  | cons c s ih =>
      obtain ⟨enc, henc⟩ := ih fun d hd => hs d (List.mem_cons_of_mem c hd)
      have hdigit : ∀ n < 16, hexValue (hexDigit n) = some n := by decide +kernel
      have hbyte := UInt8.toNat_lt c
      exact ⟨_, .escaped (hdigit (c.toNat / 16) (by omega)) (hdigit (c.toNat % 16) (by omega))
        (by omega) (hs c List.mem_cons_self) henc⟩

/-- What holds of the literal bytes, of `%` and of the digits holds of an encoding. -/
theorem mem_encodes {p : UInt8 → Prop} (hliteral : ∀ c, literal c = true → p c)
    (hpercent : p 37) (hdigit : ∀ c v, hexValue c = some v → p c)
    (h : PercentEncodes literal s enc) : ∀ c ∈ enc, p c := by
  induction h with
  | nil => simp
  | plain allowed rest ih =>
      intro c hc
      rcases List.mem_cons.mp hc with rfl | hc
      · exact hliteral _ allowed
      · exact ih c hc
  | escaped highValue lowValue value nonzero rest ih =>
      intro c hc
      simp only [List.mem_cons] at hc
      rcases hc with rfl | rfl | rfl | hc
      · exact hpercent
      · exact hdigit _ _ highValue
      · exact hdigit _ _ lowValue
      · exact ih c hc

/-- A header line with blanks around its name and its value. -/
structure HeaderLine where
  name : Bytes
  value : Bytes
  beforeName : Nat
  afterName : Nat
  beforeValue : Nat
  afterValue : Nat
  nameOk : ∀ c ∈ name, c ≠ colon ∧ c ≠ 13 ∧ c ≠ 10
  nameTrimmed : name.head? ≠ some blank ∧ name.getLast? ≠ some blank
  valueOk : ∀ c ∈ value, c ≠ 13 ∧ c ≠ 10
  valueTrimmed : value.head? ≠ some blank ∧ value.getLast? ≠ some blank
  /-- A length has only digits and is in the range of `long`. -/
  lengthOk : toLower name = ascii "content-length" →
    value ≠ [] ∧ (∀ c ∈ value, isdigit c = true) ∧ digitsValue 10 value < 2 ^ 63

def blanks (n : Nat) : Bytes := List.replicate n blank

def HeaderLine.paddedName (line : HeaderLine) : Bytes :=
  blanks line.beforeName ++ line.name ++ blanks line.afterName

def HeaderLine.paddedValue (line : HeaderLine) : Bytes :=
  blanks line.beforeValue ++ line.value ++ blanks line.afterValue

def HeaderLine.text (line : HeaderLine) : Bytes := line.paddedName ++ colon :: line.paddedValue

/-- Blanks in front are dropped. -/
theorem dropWhile_blanks (n : Nat) {s : Bytes} (hs : s.head? ≠ some blank) :
    (blanks n ++ s).dropWhile (· == blank) = s := by
  refine (span_digits (fun c hc => ?_) fun c hc => ?_).2
  · rw [List.eq_of_mem_replicate hc]
    rfl
  · rw [beq_eq_false_iff_ne]
    intro hblank
    exact hs (hblank ▸ hc)

/-- Trimming takes off exactly the blanks that were added. -/
theorem trimSpaces_padded {s : Bytes} (hs : s.head? ≠ some blank ∧ s.getLast? ≠ some blank)
    (before after : Nat) : trimSpaces (blanks before ++ s ++ blanks after) = s := by
  unfold trimSpaces trimBoth List.rdropWhile
  have hlast : s.reverse.head? ≠ some blank := by
    rw [List.head?_reverse]
    exact hs.2
  have hblanks : (blanks after).reverse = blanks after := List.reverse_replicate
  cases s with
  | nil =>
      have hall : blanks before ++ [] ++ blanks after = blanks (before + after) ++ [] := by
        simp [blanks, List.replicate_append_replicate]
      rw [hall, dropWhile_blanks _ (by simp)]
      rfl
  | cons c s =>
      rw [List.append_assoc, dropWhile_blanks before (by simpa using hs.1),
        List.reverse_append, hblanks, dropWhile_blanks after hlast, List.reverse_reverse]

/-- A digit is no NUL, no whitespace and no sign, and its value is below ten. -/
theorem isdigit_spec (c : UInt8) : isdigit c = true →
    c ≠ 0 ∧ isspace c = false ∧ c ≠ minus ∧ c ≠ plus ∧ digitValue c < 10 :=
  forall_byte (p := fun c => isdigit c = true →
    c ≠ 0 ∧ isspace c = false ∧ c ≠ minus ∧ c ≠ plus ∧ digitValue c < 10) (by decide +kernel) c

/-- Digits are read as their number, up to the end. -/
theorem strtol_digits {digits : Bytes} (hne : digits ≠ [])
    (hdigits : ∀ c ∈ digits, isdigit c = true) (hrange : digitsValue 10 digits < 2 ^ 63) :
    strtol 10 digits = some ⟨digitsValue 10 digits, [], false⟩ := by
  have hall : ∀ c ∈ digits, (isdigit c && decide (digitValue c < 10)) = true := by
    intro c hc
    obtain ⟨-, -, -, -, hvalue⟩ := isdigit_spec c (hdigits c hc)
    simp [hdigits c hc, hvalue]
  have hspan := span_digits hall headNot_nil
  rw [List.append_nil] at hspan
  cases digits with
  | nil => exact (hne rfl).elim
  | cons c rest =>
      obtain ⟨-, hspace, hminus, hplus, -⟩ := isdigit_spec c (hdigits c List.mem_cons_self)
      have hsign : scanSign ((c :: rest).dropWhile isspace) = (false, c :: rest) := by
        rw [List.dropWhile_cons_of_neg (by simp [hspace]), scanSign, if_neg hminus, if_neg hplus]
      simp only [strtol, hsign, hspan.1, hspan.2]
      rw [if_neg (by simp)]
      simp only [Bool.false_eq_true, if_false, Option.some.injEq, Converted.mk.injEq, true_and,
        Bool.or_eq_false_iff, decide_eq_false_iff_not]
      omega

/-- The value of a length is the number its digits make. -/
theorem parseContentLength_digits {value : Bytes} (hne : value ≠ [])
    (hdigits : ∀ c ∈ value, isdigit c = true) (hrange : digitsValue 10 value < 2 ^ 63) :
    parseContentLength value = some (digitsValue 10 value : Int) := by
  have hstring : cString value = value :=
    cString_of_plain fun c hc => (isdigit_spec c (hdigits c hc)).1
  unfold parseContentLength
  rw [hstring, strtol_digits hne hdigits hrange]
  simp [accepted]

/-- Has the line the header's name, in any letter case? -/
def HeaderLine.hasName (name : String) (line : HeaderLine) : Bool :=
  decide (toLower line.name = ascii name)

/-- The record after one more header line. -/
def HeaderLine.apply (line : HeaderLine) (req : HttpRequest) : HttpRequest :=
  { req with
    accept := if line.hasName "accept" then line.value else req.accept
    contentType := if line.hasName "content-type" then line.value else req.contentType
    contentLength :=
      if line.hasName "content-length" then digitsValue 10 line.value else req.contentLength
    chunked := req.chunked || (line.hasName "transfer-encoding" &&
      contains (toLower line.value) (ascii "chunked"))
    authToken := if line.hasName "x-mqtt-api-key" then line.value else req.authToken
    qosHeader := if line.hasName "x-mqtt-qos" then line.value else req.qosHeader
    retainHeader := if line.hasName "x-mqtt-retain" then line.value else req.retainHeader }

/-- A padded name stays before the colon. -/
theorem mem_paddedName {line : HeaderLine} {c : UInt8} (hc : c ∈ line.paddedName) :
    c ≠ colon ∧ c ≠ 13 ∧ c ≠ 10 := by
  simp only [HeaderLine.paddedName, blanks, List.mem_append, List.mem_replicate] at hc
  rcases hc with (⟨-, rfl⟩ | hc) | ⟨-, rfl⟩
  · decide
  · exact line.nameOk c hc
  · decide

/-- A padded value stays on its line. -/
theorem mem_paddedValue {line : HeaderLine} {c : UInt8} (hc : c ∈ line.paddedValue) :
    c ≠ 13 ∧ c ≠ 10 := by
  simp only [HeaderLine.paddedValue, blanks, List.mem_append, List.mem_replicate] at hc
  rcases hc with (⟨-, rfl⟩ | hc) | ⟨-, rfl⟩
  · decide
  · exact line.valueOk c hc
  · decide

theorem mem_text {line : HeaderLine} {c : UInt8} (hc : c ∈ line.text) : c ≠ 13 ∧ c ≠ 10 := by
  rcases List.mem_append.mp hc with hc | hc
  · exact (mem_paddedName hc).2
  · rcases List.mem_cons.mp hc with rfl | hc
    · decide
    · exact mem_paddedValue hc

/-- **One line** is taken over as its name says. -/
theorem applyHeader_text (line : HeaderLine) (req : HttpRequest) :
    applyHeader req line.text = some (line.apply req) := by
  have hcolon : colon ∉ line.paddedName := fun hc => (mem_paddedName hc).1 rfl
  have hfind : find line.text [colon] 0 = some line.paddedName.length :=
    find_append rfl hcolon (by simp)
  have hname : trimSpaces (substr line.text 0 line.paddedName.length) = line.name := by
    rw [HeaderLine.text, substr_left]
    exact trimSpaces_padded line.nameTrimmed _ _
  have hvalue : trimSpaces (line.text.drop (line.paddedName.length + 1)) = line.value := by
    rw [HeaderLine.text, drop_separator]
    exact trimSpaces_padded line.valueTrimmed _ _
  unfold applyHeader
  rw [hfind]
  simp only [hname, hvalue, HeaderLine.apply, HeaderLine.hasName]
  by_cases hlength : toLower line.name = ascii "content-length"
  · obtain ⟨hne, hdigits, hrange⟩ := line.lengthOk hlength
    simp +decide [hlength, parseContentLength_digits hne hdigits hrange]
  · simp only [hlength, decide_false, Bool.false_eq_true, if_false]
    split_ifs with h1 h2 h3 h4 h5 h6 h7 <;> simp_all +decide

def headerBlock (headers : List HeaderLine) : Bytes :=
  (headers.map fun line => line.text ++ crlf).flatten

/-- The first header, its line end and the others. -/
@[simp]
theorem headerBlock_cons (line : HeaderLine) (headers : List HeaderLine) :
    headerBlock (line :: headers) = line.text ++ crlf ++ headerBlock headers := by
  simp [headerBlock]

theorem length_text_pos (line : HeaderLine) : 0 < line.text.length := by
  simp [HeaderLine.text]

/-- The first blank line is the one behind the last header line. -/
theorem find_headEnd_block (headers : List HeaderLine) (body : Bytes) :
    find (crlf ++ (headerBlock headers ++ (crlf ++ body))) headEnd 0 =
      some (headerBlock headers).length := by
  induction headers with
  | nil =>
      apply find_of_prefix
      exact ⟨body, by simp [headerBlock, headEnd]⟩
  | cons line headers ih =>
      obtain ⟨c, text, htext⟩ := List.exists_cons_of_length_pos (length_text_pos line)
      have hc : c ≠ 13 := (mem_text (by rw [htext]; exact List.mem_cons_self)).1
      have hfree : (13 : UInt8) ∉ 10 :: line.text := by
        rw [List.mem_cons, not_or]
        exact ⟨by decide, fun h => (mem_text h).1 rfl⟩
      have hshape : crlf ++ (headerBlock (line :: headers) ++ (crlf ++ body)) =
          13 :: ((10 :: line.text) ++ (crlf ++ (headerBlock headers ++ (crlf ++ body)))) := by
        simp [crlf]
      have hstart : ¬ headEnd <+:
          13 :: ((10 :: line.text) ++ (crlf ++ (headerBlock headers ++ (crlf ++ body)))) := by
        rw [htext]
        simp [headEnd, crlf, Ne.symm hc]
      rw [hshape, find_cons hstart, find_skip rfl hfree, ih]
      simp [crlf]
      omega

/-- **All lines** are taken over, in order. -/
theorem scanHeaders_block (headers : List HeaderLine) (pre body : Bytes) (req : HttpRequest)
    {limit : Nat} (hlimit : limit + 2 = pre.length + (headerBlock headers).length) :
    scanHeaders (pre ++ (headerBlock headers ++ (crlf ++ body))) limit pre.length req =
      some (headers.foldl (fun req line => line.apply req) req) := by
  induction headers generalizing pre req with
  | nil =>
      simp only [headerBlock, List.map_nil, List.flatten_nil, List.length_nil] at hlimit
      rw [scanHeaders_eq, if_neg (by omega)]
      rfl
  | cons line headers ih =>
      have hpos := length_text_pos line
      rw [headerBlock_cons, List.length_append, List.length_append] at hlimit
      have hcrlf : crlf.length = 2 := rfl
      have hfind : find (pre ++ (headerBlock (line :: headers) ++ (crlf ++ body))) crlf
          pre.length = some (line.text.length + pre.length) := by
        rw [find_at, headerBlock_cons, List.append_assoc, List.append_assoc,
          find_append (p := 13) rfl (fun h => (mem_text h).1 rfl) (List.prefix_append _ _)]
        rfl
      have hline : substr (pre ++ (headerBlock (line :: headers) ++ (crlf ++ body))) pre.length
          (line.text.length + pre.length - pre.length) = line.text := by
        rw [substr, List.drop_left, headerBlock_cons, List.append_assoc, List.append_assoc,
          Nat.add_sub_cancel, List.take_left]
      have hnext : line.text.length + pre.length + 2 = (pre ++ (line.text ++ crlf)).length := by
        simp only [List.length_append, hcrlf]
        omega
      have hshape : pre ++ (headerBlock (line :: headers) ++ (crlf ++ body)) =
          (pre ++ (line.text ++ crlf)) ++ (headerBlock headers ++ (crlf ++ body)) := by
        simp
      rw [scanHeaders_eq, if_pos (by omega), hfind]
      simp only
      rw [if_neg (by omega), hline, applyHeader_text, Option.bind_some, hnext, hshape,
        ih _ _ (by rw [← hnext]; omega)]
      rfl

/-- Without CR and blanks, so that it can be a part of the request line. -/
def IsWord (s : Bytes) : Prop := ∀ c ∈ s, c ≠ 13 ∧ c ≠ blank

/-- Three words make a request line. -/
theorem parseRequestLine_words {method target version : Bytes} (hmethod : IsWord method)
    (htarget : IsWord target)
    (hversion : version = ascii "HTTP/1.1" ∨ version = ascii "HTTP/1.0")
    (hupper : ∀ c ∈ method, isupper c = true) (hne : method ≠ [])
    (hslash : target.head? = some slash) :
    parseRequestLine (method ++ (blank :: (target ++ (blank :: version)))) =
      some (method, target) := by
  have hfirst : find (method ++ (blank :: (target ++ (blank :: version)))) [blank] 0 =
      some method.length :=
    find_append rfl (fun h => (hmethod blank h).2 rfl) (by simp)
  have hshape : method ++ (blank :: (target ++ (blank :: version))) =
      (method ++ [blank]) ++ (target ++ (blank :: version)) := by
    simp
  have hsecond : find (method ++ (blank :: (target ++ (blank :: version)))) [blank]
      (method.length + 1) = some (target.length + (method.length + 1)) := by
    rw [hshape]
    have hat := find_at (method ++ [blank]) (target ++ (blank :: version)) [blank]
    rw [List.length_append, List.length_singleton] at hat
    rw [hat, find_append rfl (fun h => (htarget blank h).2 rfl) (by simp)]
    rfl
  have htargetPart : substr (method ++ (blank :: (target ++ (blank :: version))))
      (method.length + 1) (target.length + (method.length + 1) - method.length - 1) = target := by
    have hlength : target.length + (method.length + 1) - method.length - 1 = target.length := by
      omega
    rw [substr, hlength, drop_separator, List.take_left]
  have hversionPart : (method ++ (blank :: (target ++ (blank :: version)))).drop
      (target.length + (method.length + 1) + 1) = version := by
    have hsum : target.length + (method.length + 1) + 1 =
        method.length + 1 + (target.length + 1) := by
      omega
    rw [hsum, ← List.drop_drop, drop_separator, drop_separator]
  have hversion' : ¬ (version ≠ ascii "HTTP/1.1" ∧ version ≠ ascii "HTTP/1.0") := by
    intro h
    obtain ⟨hlate, hearly⟩ := h
    exact hversion.elim hlate hearly
  have htarget' : ¬ (method = [] ∨ target = [] ∨ target.head? ≠ some slash) := by
    intro h
    rcases h with h | h | h
    · exact hne h
    · rw [h] at hslash
      cases hslash
    · exact h hslash
  unfold parseRequestLine
  simp only [hfirst, hsecond, Option.bind_eq_bind, Option.bind_some, htargetPart, hversionPart,
    substr_left]
  rw [if_neg hversion', if_neg htarget', if_pos (List.all_eq_true.mpr hupper)]

def pathLiteral (c : UInt8) : Bool := isPlainByte c && c != 63

def keyLiteral (c : UInt8) : Bool := isPlainByte c && c != 38 && c != 61

def valueLiteral (c : UInt8) : Bool := isPlainByte c && c != 38

/-- A pair of the query, with an encoding. -/
structure QueryPair where
  key : Bytes
  value : Bytes
  keyText : Bytes
  valueText : Bytes
  keyOk : PercentEncodes keyLiteral key keyText
  valueOk : PercentEncodes valueLiteral value valueText

def QueryPair.text (pair : QueryPair) : Bytes := pair.keyText ++ 61 :: pair.valueText

def queryText (query : List QueryPair) : Bytes := [38].intercalate (query.map QueryPair.text)

/-- The bytes of an encoding are plain, or `%`. -/
theorem encoded_byte {p : UInt8 → Bool} (hliteral : ∀ c, p c = true → isPlainByte c = true)
    (h : PercentEncodes p s enc) : ∀ c ∈ enc, isPlainByte c = true ∨ c = 37 :=
  mem_encodes (fun c hc => .inl (hliteral c hc)) (.inr rfl)
    (fun _ _ hc => .inl (isPlainByte_of_hexValue hc).1) h

/-- A query pair is read back. -/
theorem parsePair_text (pair : QueryPair) : parsePair pair.text = some (pair.key, pair.value) := by
  have hkeyLiteral : ∀ c, keyLiteral c = true → isPlainByte c = true ∧ c ≠ 61 := by
    intro c hc
    simp only [keyLiteral, Bool.and_eq_true, bne_iff_ne] at hc
    exact ⟨hc.1.1, hc.2⟩
  have hequals : (61 : UInt8) ∉ pair.keyText := fun h =>
    mem_encodes (p := (· ≠ 61)) (fun c hc => (hkeyLiteral c hc).2) (by decide)
      (fun _ _ hc => (isPlainByte_of_hexValue hc).2.2.2) pair.keyOk 61 h rfl
  have hfind : find pair.text (ascii "=") 0 = some pair.keyText.length :=
    find_append rfl hequals ⟨pair.valueText, rfl⟩
  have hkey := percentDecode_encodes (fun c hc => (hkeyLiteral c hc).1) pair.keyOk
  have hvalue := percentDecode_encodes
    (fun c (hc : valueLiteral c = true) => (Bool.and_eq_true_iff.mp hc).1) pair.valueOk
  unfold parsePair
  rw [hfind]
  simp only [QueryPair.text, substr_left, drop_separator, hkey, hvalue]
  rfl

/-- A pair is written without a separator of pairs. -/
theorem mem_pairText {pair : QueryPair} {c : UInt8} (hc : c ∈ pair.text) :
    (isPlainByte c = true ∨ c = 37) ∧ c ≠ 38 := by
  have hdigit : ∀ d v, hexValue d = some v → (isPlainByte d = true ∨ d = 37) ∧ d ≠ 38 := by
    intro d v hd
    obtain ⟨hplain, -, hand, -⟩ := isPlainByte_of_hexValue hd
    exact ⟨.inl hplain, hand⟩
  have hkey : ∀ d ∈ pair.keyText, (isPlainByte d = true ∨ d = 37) ∧ d ≠ 38 := by
    refine mem_encodes (fun d hd => ?_) (by decide) hdigit pair.keyOk
    simp only [keyLiteral, Bool.and_eq_true, bne_iff_ne] at hd
    exact ⟨.inl hd.1.1, hd.1.2⟩
  have hvalue : ∀ d ∈ pair.valueText, (isPlainByte d = true ∨ d = 37) ∧ d ≠ 38 := by
    refine mem_encodes (fun d hd => ?_) (by decide) hdigit pair.valueOk
    simp only [valueLiteral, Bool.and_eq_true, bne_iff_ne] at hd
    exact ⟨.inl hd.1, hd.2⟩
  rcases List.mem_append.mp hc with hc | hc
  · exact hkey c hc
  · rcases List.mem_cons.mp hc with rfl | hc
    · decide
    · exact hvalue c hc

/-- The bytes of a query. -/
theorem mem_queryText {query : List QueryPair} {c : UInt8} (hc : c ∈ queryText query) :
    isPlainByte c = true ∨ c = 37 := by
  induction query with
  | nil => cases hc
  | cons pair query ih =>
      cases query with
      | nil =>
          rw [queryText, List.map_singleton, List.intercalate_singleton] at hc
          exact (mem_pairText hc).1
      | cons next query =>
          rw [queryText, List.map_cons, List.map_cons, List.intercalate_cons_cons] at hc
          simp only [List.mem_append, List.mem_singleton] at hc
          rcases hc with (hc | rfl) | hc
          · exact (mem_pairText hc).1
          · decide
          · exact ih hc

/-- **The query** is read back, pair by pair. -/
theorem parseQuery_queryText (query : List QueryPair) :
    parseQuery (queryText query) = some (query.map fun pair => (pair.key, pair.value)) := by
  have hpairs : ∀ pairs : List QueryPair, (pairs.map QueryPair.text).mapM parsePair =
      some (pairs.map fun pair => (pair.key, pair.value)) := by
    intro pairs
    induction pairs with
    | nil => rfl
    | cons pair pairs ih =>
        rw [List.map_cons, List.mapM_cons, parsePair_text, ih]
        rfl
  unfold parseQuery queryText
  cases query with
  | nil => rfl
  | cons pair query =>
      have hsplit : ([38].intercalate ((pair :: query).map QueryPair.text)).splitOn 38 =
          (pair :: query).map QueryPair.text := by
        apply List.splitOn_intercalate
        · intro text htext hmem
          obtain ⟨other, -, rfl⟩ := List.mem_map.mp htext
          exact (mem_pairText hmem).2 rfl
        · simp
      have hfilter : ((pair :: query).map QueryPair.text).filter (· ≠ []) =
          (pair :: query).map QueryPair.text := by
        apply List.filter_eq_self.mpr
        intro text htext
        obtain ⟨other, -, rfl⟩ := List.mem_map.mp htext
        simp [QueryPair.text]
      rw [hsplit, hfilter, hpairs]

/-- A request as it can be written down. -/
structure RequestForm where
  method : Bytes
  /-- The path behind its first slash. -/
  path : Bytes
  pathText : Bytes
  query : List QueryPair
  version : Bytes
  headers : List HeaderLine
  body : Bytes
  methodOk : method ≠ [] ∧ ∀ c ∈ method, isupper c = true
  pathOk : PercentEncodes pathLiteral path pathText
  versionOk : version = ascii "HTTP/1.1" ∨ version = ascii "HTTP/1.0"

theorem version_current : ascii "HTTP/1.1" = ascii "HTTP/1.1" ∨
    ascii "HTTP/1.1" = ascii "HTTP/1.0" :=
  .inl rfl

namespace RequestForm

/-- Without pairs there is no question mark either. -/
def target (form : RequestForm) : Bytes :=
  slash :: form.pathText ++ if form.query = [] then [] else 63 :: queryText form.query

def requestLine (form : RequestForm) : Bytes :=
  form.method ++ (blank :: (form.target ++ (blank :: form.version)))

def text (form : RequestForm) : Bytes :=
  form.requestLine ++ (crlf ++ (headerBlock form.headers ++ (crlf ++ form.body)))

/-- The value of the last line with this name. -/
def lastValue (form : RequestForm) (name : String) : Option Bytes :=
  ((form.headers.filter (·.hasName name)).getLast?).map HeaderLine.value

/-- The request that the form describes. -/
def request (form : RequestForm) : HttpRequest where
  method := form.method
  path := slash :: form.path
  query := form.query.map fun pair => (pair.key, pair.value)
  accept := (form.lastValue "accept").getD []
  contentType := (form.lastValue "content-type").getD []
  contentLength := ((form.lastValue "content-length").map fun value =>
    (digitsValue 10 value : Int)).getD (-1)
  chunked := form.headers.any fun line =>
    line.hasName "transfer-encoding" && contains (toLower line.value) (ascii "chunked")
  authToken := (form.lastValue "x-mqtt-api-key").getD []
  qosHeader := (form.lastValue "x-mqtt-qos").getD []
  retainHeader := (form.lastValue "x-mqtt-retain").getD []

end RequestForm

/-- The last of the values that `f` gives for the lines that `p` selects. -/
theorem foldl_last {α : Type*} (p : HeaderLine → Bool) (f : HeaderLine → α)
    (headers : List HeaderLine) (start : α) :
    headers.foldl (fun found line => if p line then f line else found) start =
      (((headers.filter p).getLast?).map f).getD start := by
  induction headers generalizing start with
  | nil => rfl
  | cons line headers ih =>
      rw [List.foldl_cons, ih, List.filter_cons]
      split_ifs with hline
      · rw [List.getLast?_cons]
        cases (headers.filter p).getLast? <;> rfl
      · rfl

/-- A loop that looks for one line finds any. -/
theorem foldl_or (p : HeaderLine → Bool) (headers : List HeaderLine) (start : Bool) :
    headers.foldl (fun found line => found || p line) start = (start || headers.any p) := by
  induction headers generalizing start with
  | nil => simp
  | cons line headers ih => rw [List.foldl_cons, ih, List.any_cons, Bool.or_assoc]

/-- The lines work on the fields one by one. -/
theorem foldl_apply (headers : List HeaderLine) (req : HttpRequest) :
    headers.foldl (fun req line => line.apply req) req =
      { req with
        accept := headers.foldl
          (fun found line => if line.hasName "accept" then line.value else found) req.accept
        contentType := headers.foldl
          (fun found line => if line.hasName "content-type" then line.value else found)
          req.contentType
        contentLength := headers.foldl
          (fun found line =>
            if line.hasName "content-length" then (digitsValue 10 line.value : Int) else found)
          req.contentLength
        chunked := headers.foldl
          (fun found line => found || (line.hasName "transfer-encoding" &&
            contains (toLower line.value) (ascii "chunked"))) req.chunked
        authToken := headers.foldl
          (fun found line => if line.hasName "x-mqtt-api-key" then line.value else found)
          req.authToken
        qosHeader := headers.foldl
          (fun found line => if line.hasName "x-mqtt-qos" then line.value else found)
          req.qosHeader
        retainHeader := headers.foldl
          (fun found line => if line.hasName "x-mqtt-retain" then line.value else found)
          req.retainHeader } := by
  induction headers generalizing req with
  | nil => rfl
  | cons line headers ih =>
      rw [List.foldl_cons, ih]
      rfl

namespace RequestForm

variable (form : RequestForm)

/-- A loop that overwrites keeps the last value. -/
theorem foldl_lastValue (name : String) (start : Bytes) :
    form.headers.foldl (fun found line => if line.hasName name then line.value else found) start =
      (form.lastValue name).getD start :=
  foldl_last _ _ _ _

/-- The method is a word. -/
theorem isWord_method : IsWord form.method := by
  intro c hc
  have hupper := form.methodOk.2 c hc
  constructor <;> rintro rfl <;> cases hupper

/-- The bytes of the target. -/
theorem mem_target {c : UInt8} (hc : c ∈ form.target) : isPlainByte c = true ∨ c = 37 := by
  have hpathLiteral : ∀ c, pathLiteral c = true → isPlainByte c = true :=
    fun c hc => (Bool.and_eq_true_iff.mp hc).1
  rcases List.mem_append.mp hc with hc | hc
  · rcases List.mem_cons.mp hc with rfl | hc
    · decide
    · exact encoded_byte hpathLiteral form.pathOk c hc
  · split_ifs at hc
    · cases hc
    · rcases List.mem_cons.mp hc with rfl | hc
      · decide
      · exact mem_queryText hc

theorem isWord_of_plain {s : Bytes} (h : ∀ c ∈ s, isPlainByte c = true ∨ c = 37) : IsWord s := by
  intro c hc
  rcases h c hc with hplain | rfl
  · obtain ⟨-, -, hcontrol, hblank⟩ := isPlainByte_spec c hplain
    exact ⟨fun h13 => hcontrol (.inl (h13 ▸ by decide)), hblank⟩
  · decide

/-- The target is split at its question mark. -/
theorem splitTarget_target : splitTarget form.target =
    (slash :: form.pathText, queryText form.query) := by
  have hquestion : (63 : UInt8) ∉ slash :: form.pathText := by
    rw [List.mem_cons, not_or]
    refine ⟨by decide, fun h => ?_⟩
    refine mem_encodes (p := (· ≠ 63)) (fun c hc => ?_) (by decide)
      (fun _ _ hc => (isPlainByte_of_hexValue hc).2.1) form.pathOk 63 h rfl
    exact bne_iff_ne.mp (Bool.and_eq_true_iff.mp hc).2
  unfold splitTarget target
  split_ifs with hquery
  · rw [List.append_nil, find_eq_none (p := 63) rfl hquestion, hquery]
    rfl
  · have hfind : find (slash :: form.pathText ++ 63 :: queryText form.query) (ascii "?") 0 =
        some (slash :: form.pathText).length :=
      find_append rfl hquestion ⟨queryText form.query, rfl⟩
    rw [hfind]
    simp only [substr_left, drop_separator]

/-- The request line ends where it should. -/
theorem mem_requestLine {c : UInt8} (hc : c ∈ form.requestLine) : c ≠ 13 := by
  simp only [requestLine, List.mem_append, List.mem_cons] at hc
  rcases hc with hc | rfl | hc | rfl | hc
  · exact (form.isWord_method c hc).1
  · decide
  · exact (isWord_of_plain (fun _ => form.mem_target) c hc).1
  · decide
  · have hversion : form.version.all (· != 13) = true := by
      rcases form.versionOk with hversion | hversion <;> rw [hversion] <;> rfl
    exact bne_iff_ne.mp (List.all_eq_true.mp hversion c hc)

/-- **Parsing a written request** gives the request and its body. -/
theorem parse_text : parseHttpRequest form.text {} = some (form.request, form.body) := by
  have hline : find form.text crlf 0 = some form.requestLine.length :=
    find_append rfl (fun h => form.mem_requestLine h rfl) (List.prefix_append _ _)
  have hend : find form.text headEnd form.requestLine.length =
      some ((headerBlock form.headers).length + form.requestLine.length) := by
    rw [text, find_at, find_headEnd_block]
    rfl
  have hrequestLine : parseRequestLine form.requestLine = some (form.method, form.target) :=
    parseRequestLine_words form.isWord_method (isWord_of_plain fun _ => form.mem_target)
      form.versionOk form.methodOk.2 form.methodOk.1 rfl
  have hscan : ∀ req, scanHeaders form.text
      ((headerBlock form.headers).length + form.requestLine.length)
      (form.requestLine.length + 2) req =
      some (form.headers.foldl (fun req line => line.apply req) req) := by
    intro req
    have hlength : (form.requestLine ++ crlf).length = form.requestLine.length + 2 :=
      List.length_append
    have hlimit : (headerBlock form.headers).length + form.requestLine.length + 2 =
        (form.requestLine ++ crlf).length + (headerBlock form.headers).length := by
      omega
    have hblock := scanHeaders_block form.headers (form.requestLine ++ crlf) form.body req hlimit
    rwa [hlength, List.append_assoc] at hblock
  have hleftover : form.text.drop
      ((headerBlock form.headers).length + form.requestLine.length + 4) = form.body := by
    have hshape : form.text = (form.requestLine ++ crlf ++ headerBlock form.headers ++ crlf) ++
        form.body := by
      simp [text]
    rw [hshape]
    apply List.drop_left'
    simp [crlf]
    omega
  have hpath : percentDecode (slash :: form.pathText) = some (slash :: form.path) :=
    percentDecode_encodes (fun c (hc : pathLiteral c = true) => (Bool.and_eq_true_iff.mp hc).1)
      (.plain (by decide) form.pathOk)
  have hsubstr : substr form.text 0 form.requestLine.length = form.requestLine := by
    rw [text, substr_left]
  have hrecord : ({ form.headers.foldl (fun req line => line.apply req)
      { method := form.method } with
      path := slash :: form.path
      query := form.query.map fun pair => (pair.key, pair.value) } : HttpRequest) =
      form.request := by
    rw [foldl_apply]
    simp only [foldl_lastValue, foldl_or, Bool.false_or, request]
    congr 1
    rw [lastValue, Option.map_map]
    exact foldl_last _ (fun line => (digitsValue 10 line.value : Int)) _ _
  unfold parseHttpRequest
  simp only [hline, hsubstr, hrequestLine, hend, hscan, hleftover, splitTarget_target, hpath,
    parseQuery_queryText, Option.bind_eq_bind, Option.bind_some, Option.getD_some]
  rw [← hrecord]
  rfl

end RequestForm

def NulFree (s : Bytes) : Prop := ∀ c ∈ s, c ≠ 0

/-- One byte in front of what was decoded. -/
theorem nulFree_of_map_cons {c : UInt8} {decoded : Option Bytes} {s : Bytes} (hc : c ≠ 0)
    (hrest : ∀ {rest}, decoded = some rest → NulFree rest)
    (h : decoded.map (c :: ·) = some s) : NulFree s := by
  obtain ⟨rest, hdecoded, rfl⟩ := Option.map_eq_some_iff.mp h
  intro d hd
  rcases List.mem_cons.mp hd with rfl | hd
  · exact hc
  · exact hrest hdecoded d hd

/-- A decoded string has no NUL. -/
theorem nulFree_percentDecode {enc s : Bytes} (h : percentDecode enc = some s) : NulFree s := by
  fun_induction percentDecode enc generalizing s with
  | case1 =>
      rw [← Option.some.inj h]
      nofun
  | case2 rest ih => exact nulFree_of_map_cons (by decide) ih h
  | case4 =>
      rename_i hdecoded hplus ih
      exact nulFree_of_map_cons hdecoded ih h
  | case8 c rest hplus hpercent hcontrol ih =>
      refine nulFree_of_map_cons (fun hc => hcontrol (.inl ?_)) ih h
      rw [hc]
      decide
  | case3 | case5 | case6 | case7 => cases h

/-- Each result of a traversal comes from an element. -/
theorem exists_of_mem_mapM {α β : Type*} {f : α → Option β} {xs : List α} {ys : List β}
    (h : xs.mapM f = some ys) {y : β} (hy : y ∈ ys) : ∃ x ∈ xs, f x = some y := by
  induction xs generalizing ys with
  | nil =>
      cases h
      cases hy
  | cons x xs ih =>
      simp only [List.mapM_cons, Option.bind_eq_bind, Option.bind_eq_some_iff] at h
      obtain ⟨first, hfirst, rest, hrest, hys⟩ := h
      cases hys
      rcases List.mem_cons.mp hy with rfl | hy
      · exact ⟨x, List.mem_cons_self, hfirst⟩
      · obtain ⟨x', hx', hf⟩ := ih hrest hy
        exact ⟨x', List.mem_cons_of_mem x hx', hf⟩

/-- A pair that is parsed has no NUL. -/
theorem nulFree_parsePair {text : Bytes} {pair : Bytes × Bytes}
    (h : parsePair text = some pair) : NulFree pair.1 ∧ NulFree pair.2 := by
  unfold parsePair at h
  simp only [Option.bind_eq_bind, Option.bind_eq_some_iff] at h
  obtain ⟨key, hkey, value, hvalue, hpair⟩ := h
  cases hpair
  exact ⟨nulFree_percentDecode hkey, nulFree_percentDecode hvalue⟩

theorem nulFree_parseQuery {text : Bytes} {query : List (Bytes × Bytes)}
    (h : parseQuery text = some query) : ∀ pair ∈ query, NulFree pair.1 ∧ NulFree pair.2 := by
  intro pair hpair
  obtain ⟨piece, -, hparse⟩ := exists_of_mem_mapM h hpair
  exact nulFree_parsePair hparse

/-- What is accepted has been decoded. -/
theorem nulFree_parseHttpRequest {raw leftover : Bytes} {prior req : HttpRequest}
    (h : parseHttpRequest raw prior = some (req, leftover)) :
    NulFree req.path ∧ ∀ pair ∈ req.query, NulFree pair.1 ∧ NulFree pair.2 := by
  unfold parseHttpRequest at h
  simp only [Option.bind_eq_bind, Option.bind_eq_some_iff] at h
  obtain ⟨lineEnd, -, ⟨method, target⟩, -, scanned, -, path, hpath, query, hquery, hreq⟩ := h
  cases hreq
  exact ⟨nulFree_percentDecode hpath, nulFree_parseQuery hquery⟩

/-- **Round trip.**  Every string without NUL can be written percent-encoded; every
written request parses to what it describes, with its body left over; and what is
accepted is without NUL. -/
theorem request_roundTrip :
    (∀ (literal : UInt8 → Bool) (s : Bytes), NulFree s → ∃ enc, PercentEncodes literal s enc) ∧
    (∀ form : RequestForm, parseHttpRequest form.text {} = some (form.request, form.body)) ∧
    (∀ (raw leftover : Bytes) (prior req : HttpRequest),
      parseHttpRequest raw prior = some (req, leftover) →
        NulFree req.path ∧ ∀ pair ∈ req.query, NulFree pair.1 ∧ NulFree pair.2) :=
  ⟨fun literal _ hs => exists_encodes literal hs, fun form => form.parse_text,
    fun _ _ _ _ h => nulFree_parseHttpRequest h⟩

/-- `Transfer-Encoding: CHUNKED`, in upper case. -/
def upperChunked : HeaderLine where
  name := ascii "Transfer-Encoding"
  value := ascii "CHUNKED"
  beforeName := 0
  afterName := 0
  beforeValue := 1
  afterValue := 0
  nameOk := by decide +kernel
  nameTrimmed := by decide +kernel
  valueOk := by decide +kernel
  valueTrimmed := by decide +kernel
  lengthOk h := absurd h (by decide +kernel)

/-- `PUT /m?k=%20`, with that header. -/
def upperForm : RequestForm where
  method := ascii "PUT"
  path := ascii "m"
  pathText := ascii "m"
  query := [⟨ascii "k", [32], ascii "k", ascii "%20", .plain (by decide) .nil,
    .escaped (by rfl) (by rfl) (by decide) (by decide) .nil⟩]
  version := ascii "HTTP/1.1"
  headers := [upperChunked]
  body := [0]
  methodOk := by decide +kernel
  pathOk := .plain (by decide) .nil
  versionOk := version_current

/-- The form whose `CHUNKED` is read like `chunked`. -/
theorem request_roundTrip_upper :
    parseHttpRequest upperForm.text {} = some (upperForm.request, [0]) ∧
      NulFree upperForm.request.path := by
  obtain ⟨-, hparse, haccepted⟩ := request_roundTrip
  exact ⟨hparse upperForm, (haccepted _ _ _ _ (hparse upperForm)).1⟩

/-- The letter case of the value does not matter: here no value contains `chunked`. -/
theorem chunked_in_upper_case : ¬ ∀ form : RequestForm, ∀ req body,
    parseHttpRequest form.text {} = some (req, body) →
      (req.chunked = true ↔ ∃ line ∈ form.headers, line.hasName "transfer-encoding" = true ∧
        contains line.value (ascii "chunked") = true) := by
  intro hclaim
  obtain ⟨line, hline, -, hvalue⟩ := (hclaim upperForm upperForm.request [0]
    (by decide +kernel)).mp (by decide +kernel)
  rw [List.mem_singleton.mp hline] at hvalue
  revert hvalue
  decide +kernel

end Nshmqtt
