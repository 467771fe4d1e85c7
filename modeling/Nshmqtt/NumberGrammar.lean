import Nshmqtt.DecimalRoundTrip

/-!
# The grammar of the scanned numbers

What `strtod` and `strtol` read, as a grammar: an optional sign and then, for `strtod`,
an infinity, a NaN, a decimal or a hexadecimal number, for `strtol` in base ten only
digits.  The scanner is sound, as what it reads is a number before the rest it leaves,
and complete, as it reads a number to its end.
-/

namespace DecimalText

open ByteStrings

/-- An optional sign, and whether it is a minus. -/
inductive SignText : Bool → Bytes → Prop
  | absent : SignText false []
  | positive : SignText false [plus]
  | negative : SignText true [minus]

/-- Digits with an optional point, at least one digit in all. -/
inductive MantissaText (isDigit : UInt8 → Bool) : Bytes → Prop
  | plain {digits : Bytes} (digitsOk : ∀ c ∈ digits, isDigit c = true) (nonempty : digits ≠ []) :
      MantissaText isDigit digits
  | pointed {whole fraction : Bytes} (wholeOk : ∀ c ∈ whole, isDigit c = true)
      (fractionOk : ∀ c ∈ fraction, isDigit c = true)
      (nonempty : whole ≠ [] ∨ fraction ≠ []) :
      MantissaText isDigit (whole ++ point :: fraction)

/-- An optional exponent behind its marker, in either letter case. -/
inductive ExponentPart (marker : UInt8) : Bytes → Prop
  | absent : ExponentPart marker []
  | present {c : UInt8} {negative : Bool} {sign digits : Bytes} (markerOk : tolower c = marker)
      (signOk : SignText negative sign) (digitsOk : ∀ d ∈ digits, isdigit d = true)
      (nonempty : digits ≠ []) : ExponentPart marker (c :: (sign ++ digits))

/-- A byte of the tag of a NaN. -/
def isTagByte (c : UInt8) : Bool :=
  isdigit c || (65 ≤ c && c ≤ 90) || (97 ≤ c && c ≤ 122) || c == 95

/-- An optional tag in parentheses. -/
inductive TagText : Bytes → Prop
  | absent : TagText []
  | present {tag : Bytes} (tagOk : ∀ c ∈ tag, isTagByte c = true) : TagText (40 :: (tag ++ [41]))

/-- A number without its sign. -/
inductive UnsignedText : Bytes → Prop
  | infinity {word : Bytes}
      (wordOk : toLower word = ascii "infinity" ∨ toLower word = ascii "inf") : UnsignedText word
  | nan {word tag : Bytes} (wordOk : toLower word = ascii "nan") (tagOk : TagText tag) :
      UnsignedText (word ++ tag)
  | decimal {mantissa exponent : Bytes} (mantissaOk : MantissaText isdigit mantissa)
      (exponentOk : ExponentPart 101 exponent) : UnsignedText (mantissa ++ exponent)
  | hexadecimal {word mantissa exponent : Bytes} (wordOk : toLower word = ascii "0x")
      (mantissaOk : MantissaText isxdigit mantissa) (exponentOk : ExponentPart 112 exponent) :
      UnsignedText (word ++ (mantissa ++ exponent))

/-- One number of the grammar of `strtod`. -/
def FloatText (s : Bytes) : Prop :=
  ∃ negative sign body, SignText negative sign ∧ UnsignedText body ∧ sign ++ body = s

/-- One number of the grammar of `strtol` in base ten. -/
def LongText (s : Bytes) : Prop :=
  ∃ negative sign digits, SignText negative sign ∧ digits ≠ [] ∧
    (∀ c ∈ digits, isdigit c = true) ∧ sign ++ digits = s

/-- What is scanned as a sign is one. -/
theorem scanSign_sound (s : Bytes) :
    ∃ sign, SignText (scanSign s).1 sign ∧ sign ++ (scanSign s).2 = s := by
  cases s with
  | nil => exact ⟨[], .absent, rfl⟩
  | cons c rest =>
      rw [scanSign]
      split_ifs with hminus hplus
      · exact ⟨[minus], .negative, by rw [hminus]; rfl⟩
      · exact ⟨[plus], .positive, by rw [hplus]; rfl⟩
      · exact ⟨[], .absent, rfl⟩

/-- What is scanned as a word is that word in some case. -/
theorem scanWord_sound {word s rest : Bytes} (h : scanWord word s = some rest) :
    ∃ text, toLower text = word ∧ text ++ rest = s := by
  unfold scanWord at h
  split_ifs at h with hword
  cases h
  refine ⟨s.take word.length, ?_, List.take_append_drop _ _⟩
  rw [toLower, List.map_take]
  exact hword

theorem mem_takeWhile {p : UInt8 → Bool} {s : Bytes} : ∀ c ∈ s.takeWhile p, p c = true :=
  fun _ hc => List.mem_takeWhile_imp hc

/-- What is scanned as a mantissa is one. -/
theorem scanMantissa_sound {isDigit : UInt8 → Bool} {s whole fraction rest : Bytes}
    (h : scanMantissa isDigit s = some (whole, fraction, rest)) :
    ∃ mantissa, MantissaText isDigit mantissa ∧ mantissa ++ rest = s := by
  have hsplit := List.takeWhile_append_dropWhile (p := isDigit) (l := s)
  unfold scanMantissa at h
  dsimp only at h
  by_cases hpoint : (s.dropWhile isDigit).head? = some point
  · rw [if_pos hpoint, if_pos hpoint] at h
    split_ifs at h with hempty
    simp only [Option.some.injEq, Prod.mk.injEq] at h
    obtain ⟨rfl, rfl, rfl⟩ := h
    refine ⟨_, .pointed mem_takeWhile mem_takeWhile (not_and_or.mp hempty), ?_⟩
    rw [List.append_assoc, List.cons_append, List.takeWhile_append_dropWhile,
      List.cons_head?_tail hpoint, hsplit]
  · rw [if_neg hpoint, if_neg hpoint] at h
    split_ifs at h with hempty
    simp only [Option.some.injEq, Prod.mk.injEq] at h
    obtain ⟨rfl, rfl, rfl⟩ := h
    exact ⟨_, .plain mem_takeWhile fun hnil => hempty ⟨hnil, rfl⟩, hsplit⟩

/-- What is scanned as an exponent is one, or nothing. -/
theorem scanExponent_sound (marker : UInt8) (s : Bytes) :
    ∃ part, ExponentPart marker part ∧ part ++ (scanExponent marker s).2 = s := by
  cases s with
  | nil => exact ⟨[], .absent, rfl⟩
  | cons c rest =>
      rw [scanExponent]
      dsimp only
      by_cases hmarker : tolower c = marker
      · rw [if_pos hmarker]
        by_cases hdigits : (scanSign rest).2.takeWhile isdigit = []
        · rw [if_pos hdigits]
          exact ⟨[], .absent, rfl⟩
        · rw [if_neg hdigits]
          obtain ⟨sign, hsign, hrest⟩ := scanSign_sound rest
          refine ⟨_, .present hmarker hsign mem_takeWhile hdigits, ?_⟩
          rw [List.cons_append, List.append_assoc, List.takeWhile_append_dropWhile, hrest]
      · rw [if_neg hmarker]
        exact ⟨[], .absent, rfl⟩

/-- What is skipped behind `nan` is a tag, or nothing. -/
theorem skipNanTag_sound (s : Bytes) : ∃ tag, TagText tag ∧ tag ++ skipNanTag s = s := by
  have hskip : skipNanTag s =
      if s.head? = some 40 ∧ (s.tail.dropWhile isTagByte).head? = some 41 then
        (s.tail.dropWhile isTagByte).tail
      else s := rfl
  rw [hskip]
  by_cases htag : s.head? = some 40 ∧ (s.tail.dropWhile isTagByte).head? = some 41
  · obtain ⟨hopen, hclose⟩ := htag
    rw [if_pos ⟨hopen, hclose⟩]
    refine ⟨40 :: (s.tail.takeWhile isTagByte ++ [41]), .present mem_takeWhile, ?_⟩
    rw [List.cons_append, List.append_assoc, List.singleton_append, List.cons_head?_tail hclose,
      List.takeWhile_append_dropWhile, List.cons_head?_tail hopen]
  · rw [if_neg htag]
    exact ⟨[], .absent, rfl⟩

/-- What is read is a number, and the rest stands behind it. -/
theorem scanNumber_sound {negative : Bool} {s : Bytes} {converted : Converted Binary64}
    (h : scanNumber negative s = some converted) :
    ∃ body, UnsignedText body ∧ body ++ converted.rest = s := by
  unfold scanNumber at h
  split at h
  · rename_i rest hword
    cases h
    obtain ⟨word, hlower, hsplit⟩ := scanWord_sound hword
    exact ⟨word, .infinity (Or.inl hlower), hsplit⟩
  split at h
  · rename_i rest hword
    cases h
    obtain ⟨word, hlower, hsplit⟩ := scanWord_sound hword
    exact ⟨word, .infinity (Or.inr hlower), hsplit⟩
  split at h
  · rename_i rest hword
    cases h
    obtain ⟨word, hlower, hsplit⟩ := scanWord_sound hword
    obtain ⟨tag, htag, hrest⟩ := skipNanTag_sound rest
    refine ⟨_, .nan hlower htag, ?_⟩
    rw [List.append_assoc, hrest, hsplit]
  split at h
  · rename_i whole fraction rest hmantissa
    cases h
    obtain ⟨after, hword, hscan⟩ := Option.bind_eq_some_iff.mp hmantissa
    obtain ⟨word, hlower, hsplit⟩ := scanWord_sound hword
    obtain ⟨mantissa, hmantissa, hafter⟩ := scanMantissa_sound hscan
    obtain ⟨exponent, hexponent, hrest⟩ := scanExponent_sound 112 rest
    refine ⟨_, .hexadecimal hlower hmantissa hexponent, ?_⟩
    rw [List.append_assoc, List.append_assoc, ← hsplit, ← hafter]
    exact congrArg (fun tail => word ++ (mantissa ++ tail)) hrest
  split at h
  · rename_i whole fraction rest hscan
    cases h
    obtain ⟨mantissa, hmantissa, hsplit⟩ := scanMantissa_sound hscan
    obtain ⟨exponent, hexponent, hrest⟩ := scanExponent_sound 101 rest
    refine ⟨_, .decimal hmantissa hexponent, ?_⟩
    rw [List.append_assoc, ← hsplit]
    exact congrArg (fun tail => mantissa ++ tail) hrest
  · cases h

/-- **What `strtod` reads** is a number behind whitespace. -/
theorem strtod_sound {s : Bytes} {converted : Converted Binary64}
    (h : strtod s = some converted) :
    ∃ number, FloatText number ∧ number ++ converted.rest = s.dropWhile isspace := by
  obtain ⟨sign, hsign, hsplit⟩ := scanSign_sound (s.dropWhile isspace)
  obtain ⟨body, hbody, hrest⟩ := scanNumber_sound h
  refine ⟨sign ++ body, ⟨_, sign, body, hsign, hbody, rfl⟩, ?_⟩
  rw [List.append_assoc, hrest, hsplit]

/-- **What `strtol` reads**, and the value when it is in range. -/
theorem strtol_sound {s : Bytes} {converted : Converted Int}
    (h : strtol 10 s = some converted) :
    ∃ negative sign digits, SignText negative sign ∧ digits ≠ [] ∧
      (∀ c ∈ digits, isdigit c = true) ∧
      sign ++ (digits ++ converted.rest) = s.dropWhile isspace ∧
      (converted.outOfRange = false →
        converted.value = if negative then -(digitsValue 10 digits : Int)
          else digitsValue 10 digits) := by
  obtain ⟨sign, hsign, hsplit⟩ := scanSign_sound (s.dropWhile isspace)
  unfold strtol at h
  dsimp only at h
  by_cases hempty : (scanSign (s.dropWhile isspace)).2.takeWhile
      (fun c => isdigit c && decide (digitValue c < 10)) = []
  · rw [if_pos hempty] at h
    cases h
  · rw [if_neg hempty] at h
    cases h
    refine ⟨_, sign, _, hsign, hempty, ?_, ?_, ?_⟩
    · intro c hc
      exact (Bool.and_eq_true_iff.mp (mem_takeWhile c hc)).1
    · rw [List.takeWhile_append_dropWhile, hsplit]
    · intro hrange
      simp only [Bool.or_eq_false_iff, decide_eq_false_iff_not] at hrange
      dsimp only
      omega

/-- The bytes of a mantissa. -/
theorem mem_mantissa {isDigit : UInt8 → Bool} {mantissa : Bytes}
    (h : MantissaText isDigit mantissa) {c : UInt8} (hc : c ∈ mantissa) :
    isDigit c = true ∨ c = point := by
  cases h with
  | plain digitsOk _ => exact Or.inl (digitsOk c hc)
  | pointed wholeOk fractionOk _ =>
      rcases List.mem_append.mp hc with hc | hc
      · exact Or.inl (wholeOk c hc)
      · rcases List.mem_cons.mp hc with hc | hc
        · exact Or.inr hc
        · exact Or.inl (fractionOk c hc)

/-- The bytes of a sign. -/
theorem mem_sign {negative : Bool} {sign : Bytes} (h : SignText negative sign) {c : UInt8}
    (hc : c ∈ sign) : c = plus ∨ c = minus := by
  cases h with
  | absent => cases hc
  | positive => exact Or.inl (List.mem_singleton.mp hc)
  | negative => exact Or.inr (List.mem_singleton.mp hc)

/-- The bytes of an exponent. -/
theorem mem_exponent {marker : UInt8} {part : Bytes} (h : ExponentPart marker part) {c : UInt8}
    (hc : c ∈ part) : tolower c = marker ∨ c = plus ∨ c = minus ∨ isdigit c = true := by
  cases h with
  | absent => cases hc
  | present markerOk signOk digitsOk _ =>
      rcases List.mem_cons.mp hc with rfl | hc
      · exact Or.inl markerOk
      · rcases List.mem_append.mp hc with hc | hc
        · rcases mem_sign signOk hc with hc | hc
          · exact Or.inr (Or.inl hc)
          · exact Or.inr (Or.inr (Or.inl hc))
        · exact Or.inr (Or.inr (Or.inr (digitsOk c hc)))

/-- The letters of a word, up to their case. -/
theorem mem_word {text word : Bytes} (h : toLower text = word) {c : UInt8} (hc : c ∈ text) :
    tolower c ∈ word := by
  rw [← h]
  exact List.mem_map_of_mem hc

/-- A decimal has no letter of `inf`, `nan` and `0x`. -/
theorem tolower_of_decimal {mantissa exponent : Bytes} (hmantissa : MantissaText isdigit mantissa)
    (hexponent : ExponentPart 101 exponent) {c : UInt8} (hc : c ∈ mantissa ++ exponent) :
    tolower c ≠ 105 ∧ tolower c ≠ 110 ∧ tolower c ≠ 120 := by
  have hletter : isdigit c = true ∨ c = point ∨ c = plus ∨ c = minus ∨ tolower c = 101 := by
    rcases List.mem_append.mp hc with hc | hc
    · rcases mem_mantissa hmantissa hc with hc | hc <;> simp [hc]
    · rcases mem_exponent hexponent hc with hc | hc | hc | hc <;> simp [hc]
  rcases hletter with hdigit | rfl | rfl | rfl | hmarker
  · exact tolower_of_numberByte c (numberByte_of_isdigit hdigit)
  · decide
  · decide
  · decide
  · rw [hmarker]
    decide

/-- The bytes of a number, its tag included. -/
def floatByte (c : UInt8) : Bool :=
  isTagByte c || c == point || c == plus || c == minus || c == 40 || c == 41

/-- Digits and letters can be in a float. -/
theorem floatByte_spec (c : UInt8) : (isdigit c = true → floatByte c = true) ∧
    (isxdigit c = true → floatByte c = true) ∧ (isTagByte (tolower c) = true → floatByte c = true) :=
  forall_byte (p := fun c => (isdigit c = true → floatByte c = true) ∧
    (isxdigit c = true → floatByte c = true) ∧ (isTagByte (tolower c) = true → floatByte c = true))
    (by decide +kernel) c

theorem floatByte_sign {negative : Bool} {sign : Bytes} (h : SignText negative sign) {c : UInt8}
    (hc : c ∈ sign) : floatByte c = true := by
  rcases mem_sign h hc with rfl | rfl <;> decide

theorem floatByte_word {text word : Bytes} (h : toLower text = word)
    (hword : word.all isTagByte = true) {c : UInt8} (hc : c ∈ text) : floatByte c = true :=
  (floatByte_spec c).2.2 (List.all_eq_true.mp hword _ (mem_word h hc))

theorem floatByte_scaled {isDigit : UInt8 → Bool} {marker : UInt8} {mantissa exponent : Bytes}
    (hdigit : ∀ c, isDigit c = true → floatByte c = true) (hmarker : isTagByte marker = true)
    (hmantissa : MantissaText isDigit mantissa) (hexponent : ExponentPart marker exponent)
    {c : UInt8} (hc : c ∈ mantissa ++ exponent) : floatByte c = true := by
  rcases List.mem_append.mp hc with hc | hc
  · rcases mem_mantissa hmantissa hc with hc | rfl
    · exact hdigit c hc
    · decide
  · rcases mem_exponent hexponent hc with hc | rfl | rfl | hc
    · exact (floatByte_spec c).2.2 (hc ▸ hmarker)
    · decide
    · decide
    · exact (floatByte_spec c).1 hc

/-- A number has only such bytes. -/
theorem UnsignedText.floatByte {body : Bytes} (h : UnsignedText body) {c : UInt8} (hc : c ∈ body) :
    floatByte c = true := by
  cases h with
  | infinity wordOk =>
      rcases wordOk with hword | hword <;> exact floatByte_word hword (by decide) hc
  | nan wordOk tagOk =>
      rcases List.mem_append.mp hc with hc | hc
      · exact floatByte_word wordOk (by decide) hc
      · cases tagOk with
        | absent => cases hc
        | present tagOk =>
            simp only [List.mem_cons, List.mem_append, List.not_mem_nil, or_false] at hc
            rcases hc with rfl | hc | rfl
            · decide
            · simp [DecimalText.floatByte, tagOk c hc]
            · decide
  | decimal mantissaOk exponentOk =>
      exact floatByte_scaled (fun c => (floatByte_spec c).1) (by decide) mantissaOk exponentOk hc
  | hexadecimal wordOk mantissaOk exponentOk =>
      rcases List.mem_append.mp hc with hc | hc
      · exact floatByte_word wordOk (by decide) hc
      · exact floatByte_scaled (fun c => (floatByte_spec c).2.1) (by decide) mantissaOk exponentOk hc

/-- Behind the whitespace the whole text is made of them. -/
theorem FloatText.floatByte {s : Bytes} (h : FloatText s) {c : UInt8} (hc : c ∈ s) :
    floatByte c = true := by
  obtain ⟨negative, sign, body, hsign, hbody, rfl⟩ := h
  rcases List.mem_append.mp hc with hc | hc
  · exact floatByte_sign hsign hc
  · exact hbody.floatByte hc

/-- No number has a NUL byte. -/
theorem FloatText.zero_not_mem {s : Bytes} (h : FloatText s) : (0 : UInt8) ∉ s :=
  fun hc => absurd (h.floatByte hc) (by decide)

/-- An integer has no NUL in it. -/
theorem LongText.zero_not_mem {s : Bytes} (h : LongText s) : (0 : UInt8) ∉ s := by
  obtain ⟨negative, sign, digits, hsign, -, hdigits, rfl⟩ := h
  rw [List.mem_append, not_or]
  exact ⟨fun hc => absurd (floatByte_sign hsign hc) (by decide),
    fun hc => absurd (hdigits 0 hc) (by decide)⟩

/-- A byte that the scanner passes over before a number. -/
def leadsNumber (c : UInt8) : Bool := isspace c || c == minus || c == plus

/-- A sign is scanned. -/
theorem scanSign_complete {negative : Bool} {sign rest : Bytes} (h : SignText negative sign)
    (hrest : HeadNot leadsNumber rest) : scanSign (sign ++ rest) = (negative, rest) := by
  cases h with
  | absent =>
      cases rest with
      | nil => rfl
      | cons c rest =>
          have hc := hrest c rfl
          simp only [leadsNumber, Bool.or_eq_false_iff, beq_eq_false_iff_ne] at hc
          rw [List.nil_append, scanSign, if_neg hc.1.2, if_neg hc.2]
  | positive => rfl
  | negative => rfl

/-- No whitespace is in front of a number. -/
theorem dropWhile_number {negative : Bool} {sign rest : Bytes} (h : SignText negative sign)
    (hrest : HeadNot leadsNumber rest) : (sign ++ rest).dropWhile isspace = sign ++ rest := by
  cases h with
  | absent =>
      cases rest with
      | nil => rfl
      | cons c rest =>
          have hc := hrest c rfl
          simp only [leadsNumber, Bool.or_eq_false_iff] at hc
          exact List.dropWhile_cons_of_neg (by simp [hc.1.1])
  | positive => rfl
  | negative => rfl

/-- A word is scanned in every case. -/
theorem scanWord_complete {text word : Bytes} (h : toLower text = word) (rest : Bytes) :
    scanWord word (text ++ rest) = some rest := by
  have hlength : text.length = word.length := by
    rw [← h, toLower, List.length_map]
  have htake : (toLower (text ++ rest)).take word.length = word := by
    rw [← h, toLower, toLower, List.map_append, List.length_map]
    exact List.take_left' (List.length_map _)
  rw [scanWord, if_pos htake, ← hlength, List.drop_left]

/-- A word that starts with another letter is not found. -/
theorem scanWord_of_head {text tail word rest : Bytes} {letter other : UInt8}
    (h : toLower text = letter :: tail) (hne : letter ≠ other) :
    scanWord (other :: word) (text ++ rest) = none := by
  rw [scanWord, if_neg]
  intro htake
  rw [toLower, List.map_append, ← toLower, h, List.cons_append, List.length_cons,
    List.take_succ_cons] at htake
  exact hne (List.cons.inj htake).1

/-- A mantissa is scanned to its end. -/
theorem scanMantissa_complete {isDigit : UInt8 → Bool} (hpoint : isDigit point = false)
    {mantissa rest : Bytes} (h : MantissaText isDigit mantissa)
    (hrest : HeadNot (fun c => isDigit c || c == point) rest) :
    ∃ whole fraction, scanMantissa isDigit (mantissa ++ rest) = some (whole, fraction, rest) := by
  have hdigit : HeadNot isDigit rest := fun c hc => (Bool.or_eq_false_iff.mp (hrest c hc)).1
  cases h with
  | plain digitsOk nonempty =>
      obtain ⟨htake, hdrop⟩ := span_digits digitsOk hdigit
      have hhead : rest.head? ≠ some point := by
        intro hc
        exact absurd (hrest point hc) (by simp)
      refine ⟨mantissa, [], ?_⟩
      unfold scanMantissa
      simp [htake, hdrop, hhead, nonempty]
  | @pointed whole fraction wholeOk fractionOk nonempty =>
      have hstop : HeadNot isDigit (point :: (fraction ++ rest)) := by
        intro c hc
        cases hc
        exact hpoint
      obtain ⟨htake, hdrop⟩ := span_digits wholeOk hstop
      obtain ⟨hftake, hfdrop⟩ := span_digits fractionOk hdigit
      refine ⟨whole, fraction, ?_⟩
      rw [List.append_assoc, List.cons_append]
      unfold scanMantissa
      simp only [htake, hdrop, List.head?_cons, List.tail_cons, if_true, hftake, hfdrop]
      rw [if_neg (not_and_or.mpr nonempty)]

theorem digit_no_sign (c : UInt8) : isdigit c = true → leadsNumber c = false :=
  forall_byte (p := fun c => isdigit c = true → leadsNumber c = false) (by decide +kernel) c

theorem headNot_digits {digits : Bytes} (h : ∀ c ∈ digits, isdigit c = true) :
    HeadNot leadsNumber digits :=
  fun c hc => digit_no_sign c (h c (List.mem_of_mem_head? hc))

/-- An exponent is scanned to its end. -/
theorem scanExponent_complete {marker : UInt8} {part : Bytes} (h : ExponentPart marker part) :
    (scanExponent marker part).2 = [] := by
  cases h with
  | absent => rfl
  | present markerOk signOk digitsOk nonempty =>
      have hsign := scanSign_complete signOk (headNot_digits digitsOk)
      have hspan := span_digits digitsOk headNot_nil
      rw [List.append_nil] at hspan
      rw [scanExponent]
      simp only [markerOk, if_true, hsign, hspan.1, hspan.2, nonempty, if_false]

/-- What stands behind a mantissa does not belong to it. -/
theorem headNot_exponent {p : UInt8 → Bool} {marker : UInt8} {part : Bytes}
    (hp : ∀ c, tolower c = marker → p c = false) (h : ExponentPart marker part) :
    HeadNot p part := by
  cases h with
  | absent => exact headNot_nil
  | present markerOk _ _ _ =>
      intro c hc
      cases hc
      exact hp _ markerOk

/-- A tag is skipped. -/
theorem skipNanTag_complete {tag : Bytes} (h : TagText tag) : skipNanTag tag = [] := by
  cases h with
  | absent => rfl
  | @present letters tagOk =>
      have hclose : HeadNot isTagByte [41] := by
        intro c hc
        cases hc
        decide
      have hdrop := (span_digits tagOk hclose).2
      have hskip : skipNanTag (40 :: (letters ++ [41])) =
          if ((letters ++ [41]).dropWhile isTagByte).head? = some 41 then
            ((letters ++ [41]).dropWhile isTagByte).tail
          else 40 :: (letters ++ [41]) := by
        simp only [skipNanTag, List.head?_cons, List.tail_cons, true_and]
        rfl
      rw [hskip, hdrop]
      rfl

/-- The markers of exponents are no digits and no points. -/
theorem exponentMarker (c : UInt8) :
    (tolower c = 101 → (isdigit c || c == point) = false) ∧
      (tolower c = 112 → (isxdigit c || c == point) = false) :=
  forall_byte (p := fun c => (tolower c = 101 → (isdigit c || c == point) = false) ∧
    (tolower c = 112 → (isxdigit c || c == point) = false)) (by decide +kernel) c

/-- A number is read to its end. -/
theorem scanNumber_complete {body : Bytes} (h : UnsignedText body) (negative : Bool) :
    ∃ converted, scanNumber negative body = some converted ∧ converted.rest = [] := by
  cases h with
  | infinity wordOk =>
      rcases wordOk with hword | hword
      · have hscan := scanWord_complete hword []
        rw [List.append_nil] at hscan
        exact ⟨_, by rw [scanNumber, hscan], rfl⟩
      · have hscan := scanWord_complete hword []
        rw [List.append_nil] at hscan
        have hlong : scanWord (ascii "infinity") body = none := by
          rw [scanWord, hword]
          rfl
        exact ⟨_, by rw [scanNumber, hlong, hscan], rfl⟩
  | @nan word tag wordOk tagOk =>
      have hinfinity : scanWord (ascii "infinity") (word ++ tag) = none :=
        scanWord_of_head wordOk (by decide)
      have hinf : scanWord (ascii "inf") (word ++ tag) = none :=
        scanWord_of_head wordOk (by decide)
      exact ⟨_, by rw [scanNumber, hinfinity, hinf, scanWord_complete wordOk],
        skipNanTag_complete tagOk⟩
  | decimal mantissaOk exponentOk =>
      obtain ⟨whole, fraction, hscan⟩ := scanMantissa_complete (by decide) mantissaOk
        (headNot_exponent (fun c => (exponentMarker c).1) exponentOk)
      rw [scanNumber_decimal (fun c hc => tolower_of_decimal mantissaOk exponentOk hc), hscan]
      exact ⟨_, rfl, scanExponent_complete exponentOk⟩
  | @hexadecimal word mantissa exponent wordOk mantissaOk exponentOk =>
      obtain ⟨whole, fraction, hscan⟩ := scanMantissa_complete (by decide) mantissaOk
        (headNot_exponent (fun c => (exponentMarker c).2) exponentOk)
      have hinfinity : scanWord (ascii "infinity") (word ++ (mantissa ++ exponent)) = none :=
        scanWord_of_head wordOk (by decide)
      have hinf : scanWord (ascii "inf") (word ++ (mantissa ++ exponent)) = none :=
        scanWord_of_head wordOk (by decide)
      have hnan : scanWord (ascii "nan") (word ++ (mantissa ++ exponent)) = none :=
        scanWord_of_head wordOk (by decide)
      have hhex : (scanWord (ascii "0x") (word ++ (mantissa ++ exponent))).bind
          (scanMantissa isxdigit) = some (whole, fraction, exponent) := by
        rw [scanWord_complete wordOk]
        exact hscan
      exact ⟨_, by rw [scanNumber, hinfinity, hinf, hnan, hhex], scanExponent_complete exponentOk⟩

/-- The first letter of a word, up to its case. -/
theorem headNot_word {p : UInt8 → Bool} {text word rest : Bytes} {letter : UInt8}
    (h : toLower text = letter :: word) (hp : ∀ c, tolower c = letter → p c = false) :
    HeadNot p (text ++ rest) := by
  cases text with
  | nil => cases h
  | cons c text =>
      intro d hd
      cases hd
      exact hp c (List.cons.inj h).1

/-- A letter of the words is no sign and no whitespace. -/
theorem leadsNumber_letter (c : UInt8) :
    tolower c = 105 ∨ tolower c = 110 ∨ tolower c = 48 → leadsNumber c = false :=
  forall_byte (p := fun c => tolower c = 105 ∨ tolower c = 110 ∨ tolower c = 48 →
    leadsNumber c = false) (by decide +kernel) c

/-- A mantissa begins with neither. -/
theorem headNot_mantissa {mantissa rest : Bytes} (h : MantissaText isdigit mantissa) :
    HeadNot leadsNumber (mantissa ++ rest) := by
  have hbyte : ∀ c ∈ mantissa, leadsNumber c = false := by
    intro c hc
    rcases mem_mantissa h hc with hdigit | rfl
    · exact digit_no_sign c hdigit
    · decide
  have hne : mantissa ≠ [] := by
    cases h with
    | plain _ nonempty => exact nonempty
    | pointed => exact List.append_ne_nil_of_right_ne_nil _ (List.cons_ne_nil _ _)
  intro c hc
  rw [List.head?_append_of_ne_nil _ hne] at hc
  exact hbyte c (List.mem_of_mem_head? hc)

/-- Neither whitespace nor a sign is in front of a number without its sign. -/
theorem UnsignedText.headNot {body : Bytes} (h : UnsignedText body) : HeadNot leadsNumber body := by
  cases h with
  | infinity wordOk =>
      have hletter : ∀ c, tolower c = 105 → leadsNumber c = false :=
        fun c hc => leadsNumber_letter c (Or.inl hc)
      rw [← List.append_nil body]
      rcases wordOk with hword | hword
      · exact headNot_word hword hletter
      · exact headNot_word hword hletter
  | nan wordOk _ =>
      exact headNot_word wordOk fun c hc => leadsNumber_letter c (Or.inr (Or.inl hc))
  | decimal mantissaOk _ => exact headNot_mantissa mantissaOk
  | hexadecimal wordOk _ _ =>
      exact headNot_word wordOk fun c hc => leadsNumber_letter c (Or.inr (Or.inr hc))

/-- The value of a digit is below ten. -/
theorem digitValue_lt (c : UInt8) :
    isdigit c = true → (isdigit c && decide (digitValue c < 10)) = true :=
  forall_byte (p := fun c => isdigit c = true →
    (isdigit c && decide (digitValue c < 10)) = true) (by decide +kernel) c

/-- **A number is read to its end** by `strtod`. -/
theorem strtod_complete {s : Bytes} (h : FloatText s) :
    ∃ converted, strtod s = some converted ∧ converted.rest = [] := by
  obtain ⟨negative, sign, body, hsign, hbody, rfl⟩ := h
  rw [strtod, dropWhile_number hsign hbody.headNot, scanSign_complete hsign hbody.headNot]
  exact scanNumber_complete hbody negative

/-- **An integer is read to its end** by `strtol`. -/
theorem strtol_complete {s : Bytes} (h : LongText s) :
    ∃ converted, strtol 10 s = some converted ∧ converted.rest = [] := by
  obtain ⟨negative, sign, digits, hsign, hne, hdigits, rfl⟩ := h
  have hhead := headNot_digits hdigits
  have hvalue : ∀ c ∈ digits, (isdigit c && decide (digitValue c < 10)) = true :=
    fun c hc => digitValue_lt c (hdigits c hc)
  have hspan := span_digits hvalue headNot_nil
  rw [List.append_nil] at hspan
  rw [strtol, dropWhile_number hsign hhead, scanSign_complete hsign hhead]
  simp only [hspan.1, hspan.2, hne, if_false]
  exact ⟨_, rfl, rfl⟩

end DecimalText
