import Nshmqtt.PlaceholderPasses
import Nshmqtt.WebhookJson

/-!
# The generated values

The generators of `event_placeholders.cpp`, over what the random device returns and what the clocks
show.  Their values have the shapes that the passes over a payload rely on.

* `hexByte_fits`, `padded_fits` : what the values are made of;
* `strftime_fits` : a format and the form of its texts;
* `shapedValues_generated` : the values of every call;
* `generated_substitution` : with them the substitution keeps a text UTF-8, whatever it hits.
-/

namespace Nshmqtt

open ByteStrings DecimalText Utf8

/-- The two digits of a byte. -/
def hexByte (byte : UInt8) : Bytes :=
  [hexDigit (byte.toNat / 16), hexDigit (byte.toNat % 16)]

/-- The byte that is taken from the `i`-th call of a random device. -/
def randomByte (rd : Nat → UInt32) (i : Nat) : UInt8 := (rd i &&& 0xFF).toUInt8

def randomHex (hexChars : Nat) (rd : Nat → UInt32) : Bytes :=
  (List.range (hexChars / 2)).flatMap fun i => hexByte (randomByte rd i)

/-- Version 4 in byte 6 and variant 10xx in byte 8. -/
def uuidByte (rd : Nat → UInt32) (i : Nat) : UInt8 :=
  if i = 6 then randomByte rd i &&& 0x0F ||| 0x40
  else if i = 8 then randomByte rd i &&& 0x3F ||| 0x80
  else randomByte rd i

/-- What the loop puts in front of the digits of byte `i`. -/
def uuidDash (i : Nat) : Bytes := if i = 4 ∨ i = 6 ∨ i = 8 ∨ i = 10 then [minus] else []

def randomUuidV4 (rd : Nat → UInt32) : Bytes :=
  (List.range 16).flatMap fun i => uuidDash i ++ hexByte (uuidByte rd i)

/-- `duration_cast` cuts the nanoseconds of the clock down to whole units. -/
def timestampString (nanoseconds : Int) (now : Int) : Bytes := integerText (now.tdiv nanoseconds)

/-- What `gmtime_r` gives up to the year 9999.  Four digits stand for every year, where glibc
writes those before 1000 with fewer. -/
structure CalendarTime where
  year : Nat
  month : Nat
  day : Nat
  hour : Nat
  minute : Nat
  second : Nat
  year_le : year ≤ 9999
  month_le : month ≤ 12
  day_le : day ≤ 31
  hour_le : hour ≤ 23
  minute_le : minute ≤ 59
  second_le : second ≤ 60

/-- The width of the conversion with letter `c`. -/
def conversionWidth (c : UInt8) : Nat := if c = 89 then 4 else 2

/-- What it writes: `%Y`, `%m`, `%d`, `%H`, `%M` and else `%S`, as the formats use no other. -/
def conversionValue (t : CalendarTime) (c : UInt8) : Nat :=
  if c = 89 then t.year
  else if c = 109 then t.month
  else if c = 100 then t.day
  else if c = 72 then t.hour
  else if c = 77 then t.minute
  else t.second

def padded (width n : Nat) : Bytes := (decimalText n).leftpad width zeroDigit

def strftime (t : CalendarTime) : Bytes → Bytes
  | 37 :: c :: rest => padded (conversionWidth c) (conversionValue t c) ++ strftime t rest
  | c :: rest => c :: strftime t rest
  | [] => []

/-- What one call of a generator meets. -/
structure Moment where
  rd : Nat → UInt32
  /-- Nanoseconds since the epoch. -/
  now : Int
  utc : CalendarTime

/-- The value of the generator of a token. -/
def generatedValue (token : Bytes) (m : Moment) : Bytes :=
  ([(ascii "NSHMQTT_RANDOM_HEX8", randomHex 8 m.rd),
    (ascii "NSHMQTT_RANDOM_HEX16", randomHex 16 m.rd),
    (ascii "NSHMQTT_RANDOM_HEX32", randomHex 32 m.rd),
    (ascii "NSHMQTT_RANDOM_HEX64", randomHex 64 m.rd),
    (ascii "NSHMQTT_RANDOM_UUID", randomUuidV4 m.rd),
    (ascii "NSHMQTT_TIMESTAMP_S", timestampString 1000000000 m.now),
    (ascii "NSHMQTT_TIMESTAMP_MS", timestampString 1000000 m.now),
    (ascii "NSHMQTT_TIMESTAMP_US", timestampString 1000 m.now),
    (ascii "NSHMQTT_TIMESTAMP_NS", timestampString 1 m.now),
    (ascii "NSHMQTT_DATETIME_UTC", strftime m.utc (ascii "%Y-%m-%dT%H:%M:%SZ")),
    (ascii "NSHMQTT_DATE_UTC", strftime m.utc (ascii "%Y-%m-%d")),
    (ascii "NSHMQTT_TIME_UTC", strftime m.utc (ascii "%H:%M:%S"))].lookup token).getD []

/-- The values of all calls. -/
def generatedValues (moments : Bytes → Nat → Moment) (token : Bytes) (count : Nat) : Bytes :=
  generatedValue token (moments token count)

theorem hexDigit_fits : ∀ n < 16, FitsByte 104 (hexDigit n) := by decide +kernel

theorem hexByte_fits (byte : UInt8) : List.Forall₂ FitsByte [104, 104] (hexByte byte) := by
  have hbyte := byte.toNat_lt
  exact .cons (hexDigit_fits _ (by omega)) (.cons (hexDigit_fits _ (by omega)) .nil)

/-- The random texts have the length that was asked for. -/
theorem randomHex_fits {hexChars : Nat} (hsize : hexChars ∈ [8, 16, 32, 64])
    (rd : Nat → UInt32) :
    List.Forall₂ FitsByte (List.replicate hexChars 104) (randomHex hexChars rd) := by
  have hform : ∀ n ∈ [8, 16, 32, 64],
      (List.range (n / 2)).flatMap (fun _ => [104, 104]) = List.replicate n (104 : UInt8) := by
    decide +kernel
  rw [← hform hexChars hsize]
  have hrange : List.Forall₂ Eq (List.range (hexChars / 2)) (List.range (hexChars / 2)) :=
    List.forall₂_refl _
  exact List.rel_flatMap hrange fun _ _ _ => hexByte_fits _

/-- A UUID has its dashes in the right places. -/
theorem randomUuidV4_fits (rd : Nat → UInt32) :
    List.Forall₂ FitsByte (ascii "hhhhhhhh-hhhh-hhhh-hhhh-hhhhhhhhhhhh") (randomUuidV4 rd) := by
  have hform : (List.range 16).flatMap (fun i => uuidDash i ++ [104, 104]) =
      ascii "hhhhhhhh-hhhh-hhhh-hhhh-hhhhhhhhhhhh" := by
    decide +kernel
  rw [← hform]
  have hdash : ∀ i, List.Forall₂ FitsByte (uuidDash i) (uuidDash i) := by
    intro i
    unfold uuidDash
    split_ifs
    · exact .cons (by decide) .nil
    · exact .nil
  have hrange : List.Forall₂ Eq (List.range 16) (List.range 16) := List.forall₂_refl _
  refine List.rel_flatMap hrange fun i j hij => ?_
  subst hij
  exact List.rel_append (hdash i) (hexByte_fits _)

/-- The first digit of the third group is the version, that of the fourth is of the variant. -/
theorem randomUuidV4_version (rd : Nat → UInt32) : (randomUuidV4 rd)[14]? = some 52 ∧
    ∃ c ∈ ascii "89ab", (randomUuidV4 rd)[19]? = some c := by
  have hversion : ∀ byte : UInt8, hexDigit ((byte &&& 0x0F ||| 0x40).toNat / 16) = 52 :=
    forall_byte (by decide +kernel)
  have hvariant : ∀ byte : UInt8,
      hexDigit ((byte &&& 0x3F ||| 0x80).toNat / 16) ∈ ascii "89ab" :=
    forall_byte (by decide +kernel)
  exact ⟨congrArg some (hversion (randomByte rd 6)), _, hvariant (randomByte rd 8), rfl⟩

/-- A number below a power of ten has no more digits than that. -/
theorem length_decimalText_le {k n : Nat} (hn : n < 10 ^ (k + 1)) :
    (decimalText n).length ≤ k + 1 := by
  induction k generalizing n with
  | zero =>
      rw [decimalText, if_pos (by simpa using hn)]
      rfl
  | succ k ih =>
      rw [decimalText]
      split_ifs with hsmall
      · simp
      · rw [List.length_append, List.length_singleton]
        have hshort := @ih (n / 10) (by rw [pow_succ] at hn; omega)
        omega

/-- Digits fit a form of digits. -/
theorem digits_fit {s : Bytes} (h : ∀ c ∈ s, isdigit c = true) :
    List.Forall₂ FitsByte (List.replicate s.length 48) s := by
  induction s with
  | nil => exact .nil
  | cons c s ih =>
      rw [List.forall_mem_cons] at h
      exact .cons h.1 (ih h.2)

/-- A padded number fills its width. -/
theorem padded_fits {k n : Nat} (hn : n < 10 ^ (k + 1)) :
    List.Forall₂ FitsByte (List.replicate (k + 1) 48) (padded (k + 1) n) := by
  have hlength : (padded (k + 1) n).length = k + 1 := by
    rw [padded, List.length_leftpad]
    exact Nat.max_eq_left (length_decimalText_le hn)
  have hdigits : ∀ c ∈ padded (k + 1) n, isdigit c = true := by
    intro c hc
    rw [padded, List.leftpad, List.mem_append] at hc
    rcases hc with hc | hc
    · rw [List.eq_of_mem_replicate hc]
      decide
    · exact isdigit_of_mem_decimalText hc
  have hfits := digits_fit hdigits
  rwa [hlength] at hfits

/-- The form of the texts of a format. -/
def formatForm : Bytes → Bytes
  | 37 :: c :: rest => List.replicate (conversionWidth c) 48 ++ formatForm rest
  | c :: rest => c :: formatForm rest
  | [] => []

/-- A conversion has its width, by the bounds of the calendar. -/
theorem conversion_fits (t : CalendarTime) (c : UInt8) :
    List.Forall₂ FitsByte (List.replicate (conversionWidth c) 48)
      (padded (conversionWidth c) (conversionValue t c)) := by
  have hbounds := And.intro t.year_le (And.intro t.month_le (And.intro t.day_le
    (And.intro t.hour_le (And.intro t.minute_le t.second_le))))
  unfold conversionWidth conversionValue
  split_ifs <;> exact padded_fits (by omega)

/-- **A formatted time** fits the form of its format. -/
theorem strftime_fits (t : CalendarTime) {format : Bytes} (h : 104 ∉ format) :
    List.Forall₂ FitsByte (formatForm format) (strftime t format) := by
  induction format using formatForm.induct with
  | case1 c rest ih =>
      rw [formatForm, strftime]
      simp only [List.mem_cons, not_or] at h
      exact List.rel_append (conversion_fits t c) (ih h.2.2)
  | case2 c rest hplain ih =>
      rw [List.mem_cons, not_or] at h
      rw [formatForm, strftime]
      · refine .cons ?_ (ih h.2)
        unfold FitsByte
        split_ifs with hhex hdigit
        · exact absurd hhex.symm h.1
        · rw [hdigit]
          decide
        · rfl
      · exact hplain
      · exact hplain
  | case3 => exact .nil

example : strftime ⟨2026, 9, 10, 14, 3, 1, by decide, by decide, by decide, by decide, by decide,
    by decide⟩ (ascii "%Y-%m-%dT%H:%M:%SZ") = ascii "2026-09-10T14:03:01Z" := by decide +kernel

/-- **Every generated value has its shape**, whatever the random device returns and the clocks
show. -/
theorem shapedValues_generated (moments : Bytes → Nat → Moment) :
    ShapedValues (generatedValues moments) := by
  intro entry hentry count
  change entry.2.Fits (generatedValue entry.1 (moments entry.1 count))
  obtain ⟨rd, now, utc⟩ := moments entry.1 count
  have hforms : formatForm (ascii "%Y-%m-%dT%H:%M:%SZ") = ascii "0000-00-00T00:00:00Z" ∧
      formatForm (ascii "%Y-%m-%d") = ascii "0000-00-00" ∧
      formatForm (ascii "%H:%M:%S") = ascii "00:00:00" := by
    decide +kernel
  have hdatetime := strftime_fits utc (show 104 ∉ ascii "%Y-%m-%dT%H:%M:%SZ" by decide +kernel)
  have hdate := strftime_fits utc (show 104 ∉ ascii "%Y-%m-%d" by decide +kernel)
  have htime := strftime_fits utc (show 104 ∉ ascii "%H:%M:%S" by decide +kernel)
  rw [hforms.1] at hdatetime
  rw [hforms.2.1] at hdate
  rw [hforms.2.2] at htime
  have htexts : List.Forall₂ Shape.Fits (valueShapes.map Prod.snd) _ :=
    .cons (randomHex_fits (by simp) rd) (.cons (randomHex_fits (by simp) rd)
      (.cons (randomHex_fits (by simp) rd) (.cons (randomHex_fits (by simp) rd)
        (.cons (randomUuidV4_fits rd) (.cons ⟨now.tdiv 1000000000, rfl⟩
          (.cons ⟨now.tdiv 1000000, rfl⟩ (.cons ⟨now.tdiv 1000, rfl⟩ (.cons ⟨now.tdiv 1, rfl⟩
            (.cons hdatetime (.cons hdate (.cons htime .nil)))))))))))
  have hshapes : placeholderTokens.zip (valueShapes.map Prod.snd) = valueShapes := rfl
  rw [← hshapes] at hentry
  exact lookup_zip nodup_placeholderTokens htexts entry hentry

/-- A property that no replaced token changes is not changed by the loop. -/
theorem replaceFrom_iff {P : Bytes → Prop} {token : Bytes} {generate : Nat → Bytes}
    (hturn : ∀ front back count,
      P (front ++ (generate count ++ back)) ↔ P (front ++ (token ++ back)))
    (text : Bytes) (pos count : Nat) :
    P (replaceFrom token generate text pos count) ↔ P text := by
  fun_induction replaceFrom token generate text pos count with
  | case1 text pos count htoken => exact Iff.rfl
  | case2 text pos count htoken hfound => exact Iff.rfl
  | case3 text pos count htoken k hfound value ih =>
      obtain ⟨-, -, hoccurs, -⟩ := find_eq_some_iff.mp hfound
      have hsplit : text.take k ++ (token ++ text.drop (k + token.length)) = text := by
        rw [← List.drop_drop, List.prefix_iff_eq_append.mp hoccurs, List.take_append_drop]
      have hthis := hturn (text.take k) (text.drop (k + token.length)) count
      rw [hsplit, ← List.append_assoc] at hthis
      exact ih.trans hthis

/-- What a generated value and its token leave alike around them, the passes leave alike. -/
theorem substituteEventPlaceholders_iff {P : Bytes → Prop} {generate : Bytes → Nat → Bytes}
    (hturn : ∀ token ∈ placeholderTokens, ∀ front back count,
      P (front ++ (generate token count ++ back)) ↔ P (front ++ (token ++ back)))
    (payload : Bytes) : P (substituteEventPlaceholders generate payload) ↔ P payload := by
  unfold substituteEventPlaceholders
  generalize placeholderTokens = tokens at hturn
  induction tokens generalizing payload with
  | nil => exact Iff.rfl
  | cons token tokens ih =>
      rw [List.forall_mem_cons] at hturn
      rw [List.foldl_cons]
      exact (ih _ hturn.2).trans (replaceFrom_iff hturn.1 payload 0 0)

theorem isHexDigit_ascii (c : UInt8) : isHexDigit c = true → c < 0x80 :=
  forall_byte (p := fun c => isHexDigit c = true → c < 0x80) (by decide +kernel) c

/-- What fits an ASCII byte is ASCII. -/
theorem FitsByte.ascii {form c : UInt8} (h : FitsByte form c) (hform : form < 0x80) :
    c < 0x80 := by
  unfold FitsByte at h
  split_ifs at h
  · exact isHexDigit_ascii c h
  · exact isdigit_ascii c h
  · rwa [h]

def Shape.plainForm : Shape → Bool
  | .pattern form => form.all fun c => decide (c < 0x80)
  | .integer => true

theorem Shape.Fits.ascii {shape : Shape} {value : Bytes} (h : shape.Fits value)
    (hplain : shape.plainForm = true) : ∀ c ∈ value, c < 0x80 := by
  cases shape with
  | pattern form =>
      have hform := ascii_of_all hplain
      clear hplain
      change List.Forall₂ FitsByte form value at h
      induction h with
      | nil => exact fun c hc => absurd hc List.not_mem_nil
      | cons hfits _ ih =>
          rw [List.forall_mem_cons] at hform ⊢
          exact ⟨hfits.ascii hform.1, ih hform.2⟩
  | integer =>
      obtain ⟨n, rfl⟩ := h
      exact integerText_ascii n

/-- All generated values are ASCII. -/
theorem ShapedValues.ascii {generate : Bytes → Nat → Bytes} (h : ShapedValues generate)
    {token : Bytes} (htoken : token ∈ placeholderTokens) (count : Nat) :
    ∀ c ∈ generate token count, c < 0x80 := by
  have hplain : ∀ entry ∈ valueShapes, entry.2.plainForm = true := by decide +kernel
  have hnames : placeholderTokens = valueShapes.map Prod.fst := rfl
  rw [hnames] at htoken
  obtain ⟨⟨name, shape⟩, hentry, rfl⟩ := List.mem_map.mp htoken
  exact (h _ hentry count).ascii (hplain _ hentry)

/-- A value put for a token leaves the text around it as valid as it was. -/
theorem isUtf8_value {generate : Bytes → Nat → Bytes} (h : ShapedValues generate) {token : Bytes}
    (htoken : token ∈ placeholderTokens) (front back : Bytes) (count : Nat) :
    IsUtf8 (front ++ (generate token count ++ back)) ↔ IsUtf8 (front ++ (token ++ back)) := by
  have htokens : ∀ token ∈ placeholderTokens,
      (token.all fun c => decide (c < 0x80)) = true := by
    decide +kernel
  have hne : generate token count ≠ [] := by
    obtain ⟨c, tail, hvalue, -⟩ := h.start htoken count
    rw [hvalue]
    exact List.cons_ne_nil c tail
  rw [isUtf8_append_ascii (h.ascii htoken count) hne,
    isUtf8_append_ascii (ascii_of_all (htokens token htoken)) (placeholderTokens_ne_nil htoken)]

/-- **The substitution with the program's own generators**, whatever the random device returns
and the clocks show: every value has its shape, every UUID is one of version 4, and a payload is
UTF-8 afterwards exactly if it was before. -/
theorem generated_substitution (moments : Bytes → Nat → Moment) :
    ShapedValues (generatedValues moments) ∧
      (∀ rd : Nat → UInt32, (randomUuidV4 rd)[14]? = some 52 ∧
        ∃ c ∈ ascii "89ab", (randomUuidV4 rd)[19]? = some c) ∧
      ∀ payload, IsUtf8 (substituteEventPlaceholders (generatedValues moments) payload) ↔
        IsUtf8 payload := by
  have hshapes := shapedValues_generated moments
  exact ⟨hshapes, randomUuidV4_version, substituteEventPlaceholders_iff fun _ htoken front back =>
    isUtf8_value hshapes htoken front back⟩

end Nshmqtt
