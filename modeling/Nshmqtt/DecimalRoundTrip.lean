import Nshmqtt.DecimalText

/-!
# Reading back a formatted number

The `%g` text of a decimal with a given number of significant digits is read
back by `strtod` as exactly that decimal, whichever of the three layouts is
used: the trimmed zeros of the fraction reappear in the exponent.  So a format
and parse loses what the rounding to the precision loses, and nothing else.
-/

namespace DecimalText

open ByteStrings

theorem digit_spec : ∀ d < 10, isdigit (zeroDigit + UInt8.ofNat d) = true ∧
    digitValue (zeroDigit + UInt8.ofNat d) = d := by
  decide

/-- What was read before counts by its place. -/
theorem digitsValue_foldl (base acc : Nat) (digits : Bytes) :
    digits.foldl (fun value c => base * value + digitValue c) acc =
      acc * base ^ digits.length + digitsValue base digits := by
  unfold digitsValue
  induction digits generalizing acc with
  | nil => simp
  | cons c rest ih =>
      simp only [List.foldl_cons, List.length_cons]
      rw [ih, ih (base * 0 + digitValue c)]
      ring

/-- The value of two parts of a number. -/
theorem digitsValue_append (base : Nat) (a b : Bytes) :
    digitsValue base (a ++ b) =
      digitsValue base a * base ^ b.length + digitsValue base b := by
  conv_lhs => unfold digitsValue
  rw [List.foldl_append, digitsValue_foldl]
  rfl

theorem digitsValue_zero (base : Nat) : digitsValue base [zeroDigit] = 0 := by
  have hzero : digitValue zeroDigit = 0 := by decide
  simp [digitsValue, hzero]

/-- Zeros add nothing. -/
theorem digitsValue_zeros (base k : Nat) :
    digitsValue base (List.replicate k zeroDigit) = 0 := by
  induction k with
  | zero => rfl
  | succ k ih =>
      rw [List.replicate_succ', digitsValue_append, ih, digitsValue_zero, Nat.zero_mul]

/-- The digit text stands for its number. -/
theorem digitsValue_decimalText (n : Nat) : digitsValue 10 (decimalText n) = n := by
  induction n using decimalText.induct with
  | case1 n hn =>
      rw [decimalText, if_pos hn]
      simp [digitsValue, (digit_spec n hn).2]
  | case2 n hn ih =>
      have hd := (digit_spec (n % 10) (Nat.mod_lt _ (by decide))).2
      rw [decimalText, if_neg hn, digitsValue_append, ih]
      simp only [digitsValue, List.foldl_cons, List.foldl_nil, hd]
      simp
      omega

/-- The text of a number has only digits. -/
theorem isdigit_of_mem_decimalText {n : Nat} {c : UInt8} (hc : c ∈ decimalText n) :
    isdigit c = true := by
  induction n using decimalText.induct with
  | case1 n hn =>
      rw [decimalText, if_pos hn] at hc
      rw [List.mem_singleton.mp hc]
      exact (digit_spec n hn).1
  | case2 n hn ih =>
      rw [decimalText, if_neg hn] at hc
      rcases List.mem_append.mp hc with hc | hc
      · exact ih hc
      · rw [List.mem_singleton.mp hc]
        exact (digit_spec (n % 10) (Nat.mod_lt _ (by decide))).1

theorem decimalText_ne_nil (n : Nat) : decimalText n ≠ [] := by
  rw [decimalText]
  split_ifs <;> simp

/-- The number of digits, by the powers of ten around the number. -/
theorem length_decimalText {n k : Nat} (hlo : 10 ^ k ≤ n) (hhi : n < 10 ^ (k + 1)) :
    (decimalText n).length = k + 1 := by
  induction k generalizing n with
  | zero =>
      rw [decimalText, if_pos (by simpa using hhi)]
      rfl
  | succ k ih =>
      have h10 : 10 ≤ n := by
        have hpow : 10 ^ 1 ≤ 10 ^ (k + 1) := Nat.pow_le_pow_right (by decide) (by omega)
        omega
      rw [Nat.pow_succ] at hlo
      rw [Nat.pow_succ 10 (k + 1)] at hhi
      rw [decimalText, if_neg (by omega), List.length_append, ih (by omega) (by omega)]
      rfl

/-- The trimmed zeros are all that trimming removes. -/
theorem exists_trimZeros_append (fraction : Bytes) :
    ∃ k, fraction = trimZeros fraction ++ List.replicate k zeroDigit := by
  induction fraction using List.reverseRecOn with
  | nil => exact ⟨0, rfl⟩
  | append_singleton rest c ih =>
      unfold trimZeros at ih ⊢
      by_cases hc : c = zeroDigit
      · obtain ⟨k, hk⟩ := ih
        refine ⟨k + 1, ?_⟩
        rw [List.rdropWhile_concat_pos _ _ _ (by simpa using hc), List.replicate_succ',
          ← List.append_assoc, ← hk, hc]
      · refine ⟨0, ?_⟩
        rw [List.rdropWhile_concat_neg _ _ _ (by simpa using hc)]
        simp

/-- What is left of a fraction was in it. -/
theorem mem_of_mem_trimZeros {fraction : Bytes} {c : UInt8} (hc : c ∈ trimZeros fraction) :
    c ∈ fraction := by
  obtain ⟨k, hk⟩ := exists_trimZeros_append fraction
  rw [hk]
  exact List.mem_append_left _ hc

/-- The first byte of `s`, if any, is not in the class. -/
def HeadNot (p : UInt8 → Bool) (s : Bytes) : Prop := ∀ c ∈ s.head?, p c = false

theorem headNot_nil {p : UInt8 → Bool} : HeadNot p [] :=
  fun c hc => absurd hc (Option.not_mem_none c)

/-- A run of digits ends where the rest begins. -/
theorem span_digits {p : UInt8 → Bool} {digits rest : Bytes}
    (hdigits : ∀ c ∈ digits, p c = true) (hrest : HeadNot p rest) :
    (digits ++ rest).takeWhile p = digits ∧ (digits ++ rest).dropWhile p = rest := by
  induction digits with
  | nil =>
      cases rest with
      | nil => exact ⟨rfl, rfl⟩
      | cons c rest =>
          have hc : p c = false := hrest c rfl
          simp [hc]
  | cons c digits ih =>
      have hc : p c = true := hdigits c List.mem_cons_self
      have ih' := ih fun d hd => hdigits d (List.mem_cons_of_mem _ hd)
      simp [hc, ih'.1, ih'.2]

/-- A written mantissa is scanned up to a rest that cannot belong to it. -/
theorem scanMantissa_pointed {whole fraction rest : Bytes}
    (hwhole : ∀ c ∈ whole, isdigit c = true) (hne : whole ≠ [])
    (hfraction : ∀ c ∈ fraction, isdigit c = true)
    (hrest : HeadNot (fun c => isdigit c || c == point) rest) :
    scanMantissa isdigit (pointed whole fraction ++ rest) = some (whole, fraction, rest) := by
  have hdigit : HeadNot isdigit rest := by
    intro c hc
    have := hrest c hc
    simp_all
  unfold pointed scanMantissa
  cases fraction with
  | nil =>
      obtain ⟨htake, hdrop⟩ := span_digits hwhole hdigit
      have hhead : rest.head? ≠ some point := by
        intro hc
        have := hrest point hc
        simp at this
      simp [htake, hdrop, hhead, hne]
  | cons d fraction =>
      have hpoint : HeadNot isdigit (point :: (d :: fraction ++ rest)) := by
        intro c hc
        have hcp : c = point := by simpa using hc.symm
        rw [hcp]
        decide
      obtain ⟨htake, hdrop⟩ := span_digits hwhole hpoint
      obtain ⟨hftake, hfdrop⟩ := span_digits hfraction hdigit
      have htext : (if (d :: fraction).isEmpty = true then whole
          else whole ++ point :: (d :: fraction)) ++ rest =
          whole ++ point :: (d :: fraction ++ rest) := by simp
      rw [htext]
      simp only [htake, hdrop, List.head?_cons, List.tail_cons, if_true, hftake, hfdrop]
      simp [hne]

theorem scanExponent_nil (marker : UInt8) : scanExponent marker [] = (0, []) :=
  rfl

/-- A written exponent is read back. -/
theorem scanExponent_exponentText (exponent : Int) :
    scanExponent 101 (exponentText exponent) = (exponent, []) := by
  have hlower : tolower 101 = 101 := by decide
  let digits := if exponent.natAbs < 10 then zeroDigit :: decimalText exponent.natAbs
    else decimalText exponent.natAbs
  have hdigits : ∀ c ∈ digits, isdigit c = true := by
    intro c hc
    dsimp only [digits] at hc
    split_ifs at hc
    · rcases List.mem_cons.mp hc with hc | hc
      · rw [hc]
        decide
      · exact isdigit_of_mem_decimalText hc
    · exact isdigit_of_mem_decimalText hc
  have hne : digits ≠ [] := by
    dsimp only [digits]
    split_ifs
    · simp
    · exact decimalText_ne_nil _
  have hvalue : digitsValue 10 digits = exponent.natAbs := by
    dsimp only [digits]
    split_ifs
    · rw [show zeroDigit :: decimalText exponent.natAbs =
        [zeroDigit] ++ decimalText exponent.natAbs from rfl, digitsValue_append,
        digitsValue_decimalText, digitsValue_zero, Nat.zero_mul, Nat.zero_add]
    · exact digitsValue_decimalText _
  have hspan := span_digits hdigits headNot_nil
  rw [List.append_nil] at hspan
  have htext : exponentText exponent =
      101 :: (if exponent < 0 then minus else plus) :: digits := rfl
  have hscan : scanSign ((if exponent < 0 then minus else plus) :: digits) =
      (decide (exponent < 0), digits) := by
    have hplus : plus ≠ minus := by decide
    by_cases hneg : exponent < 0 <;> simp [scanSign, hneg, hplus]
  rw [htext]
  simp only [scanExponent, hlower, if_true, hscan, hspan.1, hspan.2, hne, if_false, hvalue]
  by_cases hneg : exponent < 0
  · simp only [hneg, decide_true, if_true]
    exact Prod.ext (by show -(exponent.natAbs : Int) = exponent; omega) rfl
  · simp only [hneg, decide_false, Bool.false_eq_true, if_false]
    exact Prod.ext (by show (exponent.natAbs : Int) = exponent; omega) rfl

/-- A word is not found where one of its letters does not occur. -/
theorem scanWord_eq_none {word s : Bytes} {letter : UInt8} (hword : letter ∈ word)
    (hs : ∀ c ∈ s, tolower c ≠ letter) : scanWord word s = none := by
  rw [scanWord, if_neg]
  intro htake
  have hmem : letter ∈ (toLower s).take word.length := by
    rw [htake]
    exact hword
  obtain ⟨c, hc, hletter⟩ := List.mem_map.mp (List.mem_of_mem_take hmem)
  exact hs c hc hletter

/-- The denominator of a power is positive. -/
theorem powerRatio_pos {base : Nat} (hbase : 0 < base) (mantissa : Nat) (exponent : Int) :
    0 < (powerRatio base mantissa exponent).2 :=
  Nat.pow_pos hbase

/-- Factors of the base may move between mantissa and exponent. -/
theorem powerRatio_shift {base mantissa k : Nat} {exponent : Int} :
    (powerRatio base mantissa (exponent + k)).1 *
        (powerRatio base (mantissa * base ^ k) exponent).2 =
      (powerRatio base (mantissa * base ^ k) exponent).1 *
        (powerRatio base mantissa (exponent + k)).2 := by
  have hexp : (exponent + k).toNat + (-exponent).toNat =
      k + (exponent.toNat + (-(exponent + k)).toNat) := by omega
  show mantissa * base ^ (exponent + k).toNat * base ^ (-exponent).toNat =
    mantissa * base ^ k * base ^ exponent.toNat * base ^ (-(exponent + k)).toNat
  calc mantissa * base ^ (exponent + k).toNat * base ^ (-exponent).toNat
      = mantissa * base ^ ((exponent + k).toNat + (-exponent).toNat) := by
        rw [Nat.mul_assoc, ← Nat.pow_add]
    _ = mantissa * base ^ (k + (exponent.toNat + (-(exponent + k)).toNat)) := by rw [hexp]
    _ = mantissa * base ^ k * base ^ exponent.toNat * base ^ (-(exponent + k)).toNat := by
        rw [Nat.pow_add, Nat.pow_add]
        ring

/-- The conversion of the decimal `digits * 10 ^ exponent`. -/
def convertDecimal (negative : Bool) (digits : Nat) (exponent : Int) (rest : Bytes) :
    Converted Binary64 :=
  let ratio := powerRatio 10 digits exponent
  { value := Binary64.ofRatio negative ratio.1 ratio.2
    rest := rest
    outOfRange := Binary64.rangeError ratio.1 ratio.2 }

/-- A factor of ten can be in the digits or in the exponent. -/
theorem convertDecimal_shift (negative : Bool) (digits k : Nat) (exponent : Int)
    (rest : Bytes) :
    convertDecimal negative digits (exponent + k) rest =
      convertDecimal negative (digits * 10 ^ k) exponent rest := by
  have hpos := powerRatio_pos (show 0 < 10 by decide)
  unfold convertDecimal
  simp only [Converted.mk.injEq, true_and]
  exact ⟨Binary64.ofRatio_congr negative (hpos _ _) (hpos _ _) powerRatio_shift,
    Binary64.rangeError_congr (hpos _ _) (hpos _ _) powerRatio_shift⟩

/-- Convert a scanned decimal whose fraction lost `k` trailing zeros. -/
theorem convertScanned_trimmed (negative : Bool) {whole fraction rest after : Bytes}
    {k digits : Nat} {exponent : Int} (hexp : scanExponent 101 rest = (exponent, after))
    (hdigits : digitsValue 10 (whole ++ fraction ++ List.replicate k zeroDigit) = digits) :
    convertScanned negative 10 10 1 101 whole fraction rest =
      convertDecimal negative digits (exponent - (fraction.length + k : Nat)) after := by
  rw [digitsValue_append, digitsValue_zeros, List.length_replicate, Nat.add_zero] at hdigits
  have hshift : exponent - (1 : Nat) * (fraction.length : Nat) =
      exponent - (fraction.length + k : Nat) + k := by
    push_cast
    omega
  calc convertScanned negative 10 10 1 101 whole fraction rest
      = convertDecimal negative (digitsValue 10 (whole ++ fraction))
          (exponent - (1 : Nat) * (fraction.length : Nat)) after := by
        simp only [convertScanned, hexp]
        rfl
    _ = convertDecimal negative digits (exponent - (fraction.length + k : Nat)) after := by
        rw [hshift, convertDecimal_shift, hdigits]

/-- A property of every byte is checked on the 256 values. -/
theorem forall_byte {p : UInt8 → Prop} (h : ∀ n < 256, p (UInt8.ofNat n)) (c : UInt8) :
    p c := by
  have hc := h c.toNat c.toNat_lt
  rwa [UInt8.ofNat_toNat] at hc

/-- The bytes of a formatted finite number. -/
def numberByte (c : UInt8) : Bool :=
  isdigit c || c == point || c == plus || c == minus || c == 101

theorem numberByte_of_isdigit {c : UInt8} (hc : isdigit c = true) : numberByte c = true := by
  simp [numberByte, hc]

/-- What can be in a number begins none of the words, and no hexadecimal mantissa. -/
theorem tolower_of_numberByte (c : UInt8) : numberByte c = true →
    tolower c ≠ 105 ∧ tolower c ≠ 110 ∧ tolower c ≠ 120 :=
  forall_byte (p := fun c => numberByte c = true →
    tolower c ≠ 105 ∧ tolower c ≠ 110 ∧ tolower c ≠ 120) (by decide +kernel) c

/-- Text without letters of `inf`, `nan` and `0x` is scanned as a decimal. -/
theorem scanNumber_decimal {s : Bytes}
    (hlower : ∀ c ∈ s, tolower c ≠ 105 ∧ tolower c ≠ 110 ∧ tolower c ≠ 120) (negative : Bool) :
    scanNumber negative s = (scanMantissa isdigit s).map fun m =>
      convertScanned negative 10 10 1 101 m.1 m.2.1 m.2.2 := by
  have hinfinity : scanWord (ascii "infinity") s = none :=
    scanWord_eq_none (show 105 ∈ _ by decide) fun c hc => (hlower c hc).1
  have hinf : scanWord (ascii "inf") s = none :=
    scanWord_eq_none (show 105 ∈ _ by decide) fun c hc => (hlower c hc).1
  have hnan : scanWord (ascii "nan") s = none :=
    scanWord_eq_none (show 110 ∈ _ by decide) fun c hc => (hlower c hc).2.1
  have hhex : scanWord (ascii "0x") s = none :=
    scanWord_eq_none (show 120 ∈ _ by decide) fun c hc => (hlower c hc).2.2
  simp only [scanNumber, hinfinity, hinf, hnan, hhex, Option.bind_none]
  cases scanMantissa isdigit s <;> rfl

theorem scanNumber_of_numberByte {s : Bytes} (hs : ∀ c ∈ s, numberByte c = true)
    (negative : Bool) :
    scanNumber negative s = (scanMantissa isdigit s).map fun m =>
      convertScanned negative 10 10 1 101 m.1 m.2.1 m.2.2 :=
  scanNumber_decimal (fun c hc => tolower_of_numberByte c (hs c hc)) negative

/-- The text of an exponent can be in a number. -/
theorem numberByte_exponentText {exponent : Int} {c : UInt8}
    (hc : c ∈ exponentText exponent) : numberByte c = true := by
  have hsign : numberByte (if exponent < 0 then minus else plus) = true := by
    split_ifs <;> decide
  unfold exponentText at hc
  rcases List.mem_cons.mp hc with hc | hc
  · rw [hc]
    decide
  rcases List.mem_cons.mp hc with hc | hc
  · rw [hc]
    exact hsign
  · split_ifs at hc
    · rcases List.mem_cons.mp hc with hc | hc
      · rw [hc]
        decide
      · exact numberByte_of_isdigit (isdigit_of_mem_decimalText hc)
    · exact numberByte_of_isdigit (isdigit_of_mem_decimalText hc)

/-- The bytes of a number with a point. -/
theorem mem_pointed {whole fraction : Bytes} {c : UInt8} (hc : c ∈ pointed whole fraction) :
    c ∈ whole ∨ c = point ∨ c ∈ fraction := by
  unfold pointed at hc
  split_ifs at hc
  · exact Or.inl hc
  · simpa using hc

/-- **One layout.**  A pointed mantissa whose fraction is trimmed, followed by a
rest that scans as an exponent, converts to the untrimmed decimal. -/
theorem scanNumber_pointed (negative : Bool) {whole full rest after : Bytes} {exponent : Int}
    (hwhole : ∀ c ∈ whole, isdigit c = true) (hne : whole ≠ [])
    (hfull : ∀ c ∈ full, isdigit c = true)
    (hrest : HeadNot (fun c => isdigit c || c == point) rest)
    (hbytes : ∀ c ∈ rest, numberByte c = true)
    (hexp : scanExponent 101 rest = (exponent, after)) :
    scanNumber negative (pointed whole (trimZeros full) ++ rest) =
      some (convertDecimal negative (digitsValue 10 (whole ++ full))
        (exponent - (full.length : Nat)) after) := by
  obtain ⟨k, hk⟩ := exists_trimZeros_append full
  have hlength : full.length = (trimZeros full).length + k := by
    conv_lhs => rw [hk]
    simp
  have htrimmed : ∀ c ∈ trimZeros full, isdigit c = true :=
    fun c hc => hfull c (mem_of_mem_trimZeros hc)
  have hnumber : ∀ c ∈ pointed whole (trimZeros full) ++ rest, numberByte c = true := by
    intro c hc
    rcases List.mem_append.mp hc with hc | hc
    · rcases mem_pointed hc with hc | hc | hc
      · exact numberByte_of_isdigit (hwhole c hc)
      · rw [hc]
        decide
      · exact numberByte_of_isdigit (htrimmed c hc)
    · exact hbytes c hc
  rw [scanNumber_of_numberByte hnumber, scanMantissa_pointed hwhole hne htrimmed hrest]
  simp only [Option.map_some]
  rw [convertScanned_trimmed negative hexp (k := k)
    (by rw [List.append_assoc, ← hk]), hlength]

variable {precision digits : Nat}

/-- **The written decimal is read back.**  For `precision` significant digits
the `%g` text converts exactly as `digits * 10 ^ (exponent + 1 - precision)`. -/
theorem scanNumber_generalText (negative : Bool) (exponent : Int) (hp : 0 < precision)
    (hlo : 10 ^ (precision - 1) ≤ digits) (hhi : digits < 10 ^ precision) :
    scanNumber negative (generalText precision digits exponent) =
      some (convertDecimal negative digits (exponent + 1 - precision) []) := by
  obtain ⟨p, rfl⟩ : ∃ p, precision = p + 1 := ⟨precision - 1, by omega⟩
  have hlength : (decimalText digits).length = p + 1 := length_decimalText hlo hhi
  have hdigit : ∀ c ∈ decimalText digits, isdigit c = true :=
    fun c hc => isdigit_of_mem_decimalText hc
  have htake : ∀ j, ∀ c ∈ (decimalText digits).take j, isdigit c = true :=
    fun j c hc => hdigit c (List.mem_of_mem_take hc)
  have hdrop : ∀ j, ∀ c ∈ (decimalText digits).drop j, isdigit c = true :=
    fun j c hc => hdigit c (List.mem_of_mem_drop hc)
  have htakeNe : ∀ j, (decimalText digits).take (j + 1) ≠ [] := by
    intro j hj
    have := congrArg List.length hj
    simp [hlength] at this
  have hvalue : ∀ j, digitsValue 10
      ((decimalText digits).take j ++ (decimalText digits).drop j) = digits := by
    intro j
    rw [List.take_append_drop, digitsValue_decimalText]
  unfold generalText
  split_ifs with hsci hfixed
  · have hhead : HeadNot (fun c => isdigit c || c == point) (exponentText exponent) := by
      intro c hc
      have hce : c = 101 := by simpa [exponentText] using hc.symm
      rw [hce]
      decide
    rw [scanNumber_pointed negative (htake 1) (htakeNe 0) (hdrop 1) hhead
      (fun c hc => numberByte_exponentText hc) (scanExponent_exponentText exponent),
      hvalue, List.length_drop, hlength]
    congr 2
    omega
  · have hscan := scanNumber_pointed negative (htake (exponent.toNat + 1))
      (htakeNe exponent.toNat) (hdrop (exponent.toNat + 1)) headNot_nil
      (fun c hc => absurd hc List.not_mem_nil) (scanExponent_nil 101)
    rw [List.append_nil] at hscan
    rw [hscan, hvalue, List.length_drop, hlength]
    congr 2
    omega
  · have hfull : ∀ c ∈ List.replicate (exponent.natAbs - 1) zeroDigit ++ decimalText digits,
        isdigit c = true := by
      intro c hc
      rcases List.mem_append.mp hc with hc | hc
      · rw [List.eq_of_mem_replicate hc]
        decide
      · exact hdigit c hc
    have hzero : ∀ c ∈ [zeroDigit], isdigit c = true :=
      List.forall_mem_singleton.mpr (by decide)
    have hscan := scanNumber_pointed negative hzero (List.cons_ne_nil _ _) hfull headNot_nil
      (fun c hc => absurd hc List.not_mem_nil) (scanExponent_nil 101)
    have hzeros : digitsValue 10 ([zeroDigit] ++
        (List.replicate (exponent.natAbs - 1) zeroDigit ++ decimalText digits)) = digits := by
      rw [← List.append_assoc, digitsValue_append, digitsValue_append, digitsValue_zero,
        digitsValue_zeros, digitsValue_decimalText]
      simp
    rw [List.append_nil] at hscan
    rw [hscan, hzeros, List.length_append, List.length_replicate, hlength]
    congr 2
    omega

/-- The place of the first digit. -/
theorem leadingPlace_spec {num den : Nat} (hden : 0 < den) (hbig : den ≤ num * 10 ^ decimalOffset) :
    den * 10 ^ leadingPlace num den ≤ num * 10 ^ decimalOffset ∧
      num * 10 ^ decimalOffset < den * 10 ^ (leadingPlace num den + 1) := by
  have hw : num * 10 ^ decimalOffset / den ≠ 0 := (Nat.div_pos hbig hden).ne'
  constructor
  · have := Nat.pow_log_le_self 10 hw
    rw [Nat.mul_comm]
    exact (Nat.le_div_iff_mul_le hden).mp this
  · have := Nat.lt_pow_succ_log_self (b := 10) (by decide) (num * 10 ^ decimalOffset / den)
    rw [Nat.mul_comm den]
    exact (Nat.div_lt_iff_lt_mul hden).mp this

/-- Units of one part in which a decimal of `precision` digits is a whole number. -/
def shownUnit (precision : Nat) : Nat := 10 ^ (decimalOffset + (precision - 1))

/-- The digits of `scientific` before a carry is normalized. -/
def roundedDigits (precision num den : Nat) : Nat :=
  roundHalfEven (num * shownUnit precision) (den * 10 ^ leadingPlace num den)

attribute [irreducible] shownUnit

theorem shownUnit_eq (precision : Nat) :
    shownUnit precision = 10 ^ (decimalOffset + (precision - 1)) := by
  unfold shownUnit
  rfl

/-- A number in the unit of the last digit shown. -/
theorem mul_shownUnit (num precision : Nat) :
    num * shownUnit precision = num * 10 ^ decimalOffset * 10 ^ (precision - 1) := by
  rw [shownUnit_eq, Nat.pow_add, Nat.mul_assoc]

theorem shownUnit_pos (precision : Nat) : 0 < shownUnit precision := by
  rw [shownUnit_eq]
  exact Nat.pow_pos (by decide)

/-- At that place the digits are `precision` many, or a power of ten more. -/
theorem roundedDigits_bounds {num den : Nat} (hp : 0 < precision) (hden : 0 < den)
    (hbig : den ≤ num * 10 ^ decimalOffset) :
    10 ^ (precision - 1) ≤ roundedDigits precision num den ∧
      roundedDigits precision num den ≤ 10 ^ precision := by
  obtain ⟨p, rfl⟩ : ∃ p, precision = p + 1 := ⟨precision - 1, by omega⟩
  obtain ⟨hlow, hhigh⟩ := leadingPlace_spec hden hbig
  have hpos : 0 < den * 10 ^ leadingPlace num den := Nat.mul_pos hden (Nat.pow_pos (by decide))
  unfold roundedDigits
  rw [mul_shownUnit, Nat.add_sub_cancel]
  constructor
  · apply le_roundHalfEven hpos
    rw [Nat.mul_comm]
    exact Nat.mul_le_mul_right _ hlow
  · apply roundHalfEven_le hpos
    calc num * 10 ^ decimalOffset * 10 ^ p
        ≤ den * 10 ^ (leadingPlace num den + 1) * 10 ^ p := Nat.mul_le_mul_right _ hhigh.le
      _ = 10 ^ (p + 1) * (den * 10 ^ leadingPlace num den) := by
          rw [Nat.pow_succ, Nat.pow_succ]
          ring

/-- The rounded digits have exactly `precision` places. -/
theorem scientific_bounds {num den : Nat} (hp : 0 < precision) (hden : 0 < den)
    (hbig : den ≤ num * 10 ^ decimalOffset) :
    10 ^ (precision - 1) ≤ (scientific precision num den).1 ∧
      (scientific precision num den).1 < 10 ^ precision := by
  obtain ⟨hge, hle⟩ := roundedDigits_bounds hp hden hbig
  have hpow : 10 ^ (precision - 1) < 10 ^ precision :=
    Nat.pow_lt_pow_right (by decide) (by omega)
  rw [roundedDigits, shownUnit_eq] at hge hle
  rw [scientific]
  split_ifs with heq
  · exact ⟨le_rfl, hpow⟩
  · exact ⟨hge, lt_of_le_of_ne hle heq⟩

/-- What is left of the digits can be in a number. -/
theorem numberByte_trimmed {full : Bytes} (hfull : ∀ c ∈ full, isdigit c = true) {c : UInt8}
    (hc : c ∈ trimZeros full) : numberByte c = true :=
  numberByte_of_isdigit (hfull c (mem_of_mem_trimZeros hc))

theorem numberByte_generalText {exponent : Int} {c : UInt8}
    (hc : c ∈ generalText precision digits exponent) : numberByte c = true := by
  have hdigit : ∀ d ∈ decimalText digits, isdigit d = true :=
    fun d hd => isdigit_of_mem_decimalText hd
  have hpointed : ∀ whole full, (∀ d ∈ whole, isdigit d = true) →
      (∀ d ∈ full, isdigit d = true) → c ∈ pointed whole (trimZeros full) →
      numberByte c = true := by
    intro whole full hwhole hfull hmem
    rcases mem_pointed hmem with hmem | hmem | hmem
    · exact numberByte_of_isdigit (hwhole c hmem)
    · rw [hmem]
      decide
    · exact numberByte_trimmed hfull hmem
  unfold generalText at hc
  split_ifs at hc
  · rcases List.mem_append.mp hc with hc | hc
    · exact hpointed _ _ (fun d hd => hdigit d (List.mem_of_mem_take hd))
        (fun d hd => hdigit d (List.mem_of_mem_drop hd)) hc
    · exact numberByte_exponentText hc
  · exact hpointed _ _ (fun d hd => hdigit d (List.mem_of_mem_take hd))
      (fun d hd => hdigit d (List.mem_of_mem_drop hd)) hc
  · refine hpointed [zeroDigit] _ (List.forall_mem_singleton.mpr (by decide)) (fun d hd => ?_) hc
    rcases List.mem_append.mp hd with hd | hd
    · rw [List.eq_of_mem_replicate hd]
      decide
    · exact hdigit d hd

/-- The bytes of any formatted double, `inf` and `nan` included. -/
def formatByte (c : UInt8) : Bool :=
  numberByte c || c == 97 || c == 102 || c == 105 || c == 110

/-- The bytes that the text of a double is made of. -/
theorem formatByte_formatGeneral {x : Binary64} {c : UInt8}
    (hc : c ∈ formatGeneral precision x) : formatByte c = true := by
  unfold formatGeneral at hc
  rcases List.mem_append.mp hc with hc | hc
  · split_ifs at hc
    · rw [List.mem_singleton.mp hc]
      decide
    · simp at hc
  · split_ifs at hc
    · have hnan : (ascii "nan").all formatByte = true := rfl
      exact List.all_eq_true.mp hnan c hc
    · have hinf : (ascii "inf").all formatByte = true := rfl
      exact List.all_eq_true.mp hinf c hc
    · rw [List.mem_singleton.mp hc]
      decide
    · simp [formatByte, numberByte_generalText hc]

/-- A formatted magnitude starts with a digit. -/
theorem generalText_head (precision digits : Nat) (exponent : Int) :
    ∃ c rest, generalText precision digits exponent = c :: rest ∧ isdigit c = true := by
  have hpointed : ∀ whole fraction tail : Bytes, whole ≠ [] →
      (∀ c ∈ whole, isdigit c = true) →
      ∃ c rest, pointed whole fraction ++ tail = c :: rest ∧ isdigit c = true := by
    intro whole fraction tail hne hdigit
    cases whole with
    | nil => exact absurd rfl hne
    | cons c whole =>
        refine ⟨c, (if fraction.isEmpty then whole else whole ++ point :: fraction) ++ tail,
          ?_, hdigit c List.mem_cons_self⟩
        unfold pointed
        split_ifs <;> rfl
  have htake : ∀ j, (decimalText digits).take (j + 1) ≠ [] := by
    intro j hj
    rcases List.take_eq_nil_iff.mp hj with hj | hj
    · omega
    · exact decimalText_ne_nil digits hj
  have hdigit : ∀ j, ∀ c ∈ (decimalText digits).take j, isdigit c = true :=
    fun j c hc => isdigit_of_mem_decimalText (List.mem_of_mem_take hc)
  unfold generalText
  split_ifs
  · exact hpointed _ _ _ (htake 0) (hdigit 1)
  · rw [← List.append_nil (pointed _ _)]
    exact hpointed _ _ _ (htake _) (hdigit _)
  · rw [← List.append_nil (pointed _ _)]
    exact hpointed _ _ _ (List.cons_ne_nil _ _) (List.forall_mem_singleton.mpr (by decide))

/-- No double has an empty text. -/
theorem formatGeneral_ne_nil (x : Binary64) : formatGeneral precision x ≠ [] := by
  apply List.append_ne_nil_of_right_ne_nil
  split_ifs
  · decide
  · decide
  · simp
  · obtain ⟨c, rest, htext, -⟩ := generalText_head precision
      (scientific precision x.quanta Binary64.quantaPerUnit).1
      (scientific precision x.quanta Binary64.quantaPerUnit).2
    rw [htext]
    simp

theorem quantaPerUnit_le : Binary64.quantaPerUnit ≤ 10 ^ decimalOffset := by
  decide +kernel

/-- The sign written in front is split off again. -/
theorem strtod_signed (negative : Bool) {c : UInt8} {rest : Bytes} (hc : isdigit c = true) :
    strtod ((if negative then [minus] else []) ++ c :: rest) =
      scanNumber negative (c :: rest) := by
  have hplain : isspace c = false ∧ c ≠ minus ∧ c ≠ plus := forall_byte
    (p := fun c => isdigit c = true → isspace c = false ∧ c ≠ minus ∧ c ≠ plus)
    (by decide +kernel) c hc
  have hminus : isspace minus = false := by decide
  cases negative with
  | false => simp [strtod, scanSign, hplain]
  | true => simp [strtod, scanSign, hminus]

/-- **Format, then parse.**  A finite nonzero double comes back as the decimal
its text was rounded to. -/
theorem strtod_formatGeneral (hp : 0 < precision) {x : Binary64} (hnan : x.isNan = false)
    (hinf : x.isInf = false) (hzero : x.quanta ≠ 0) :
    strtod (formatGeneral precision x) =
      some (convertDecimal x.negative
        (scientific precision x.quanta Binary64.quantaPerUnit).1
        ((scientific precision x.quanta Binary64.quantaPerUnit).2 + 1 - precision) []) := by
  have hbig : Binary64.quantaPerUnit ≤ x.quanta * 10 ^ decimalOffset :=
    le_trans quantaPerUnit_le (Nat.le_mul_of_pos_left _ (Nat.pos_of_ne_zero hzero))
  obtain ⟨hlo, hhi⟩ := scientific_bounds hp Binary64.quantaPerUnit_pos hbig
  obtain ⟨c, rest, htext, hdigit⟩ := generalText_head precision
    (scientific precision x.quanta Binary64.quantaPerUnit).1
    (scientific precision x.quanta Binary64.quantaPerUnit).2
  have hformat : formatGeneral precision x =
      (if x.negative then [minus] else []) ++ c :: rest := by
    rw [← htext]
    simp [formatGeneral, hnan, hinf, hzero]
  rw [hformat, strtod_signed x.negative hdigit, ← htext,
    scanNumber_generalText x.negative _ hp hlo hhi]

/-- The decimal that a number is rounded to, as a multiple of `1 / shownUnit`. -/
def shownDecimal (precision num den : Nat) : Nat :=
  roundedDigits precision num den * 10 ^ leadingPlace num den

/-- Digits and exponent are those of the decimal, with a carry or without. -/
theorem convertDecimal_scientific (negative : Bool) (hp : 0 < precision) (num den : Nat)
    (rest : Bytes) :
    convertDecimal negative (scientific precision num den).1
        ((scientific precision num den).2 + 1 - precision) rest =
      { value := Binary64.ofRatio negative (shownDecimal precision num den) (shownUnit precision)
        rest := rest
        outOfRange :=
          Binary64.rangeError (shownDecimal precision num den) (shownUnit precision) } := by
  obtain ⟨p, rfl⟩ : ∃ p, precision = p + 1 := ⟨precision - 1, by omega⟩
  have hratio : convertDecimal negative (shownDecimal (p + 1) num den)
      (-((decimalOffset + p : Nat) : Int)) rest =
      { value := Binary64.ofRatio negative (shownDecimal (p + 1) num den) (shownUnit (p + 1))
        rest := rest
        outOfRange :=
          Binary64.rangeError (shownDecimal (p + 1) num den) (shownUnit (p + 1)) } := by
    have hneg : (-((decimalOffset + p : Nat) : Int)).toNat = 0 := by omega
    have hpos : (- -((decimalOffset + p : Nat) : Int)).toNat = decimalOffset + p := by omega
    simp only [convertDecimal, powerRatio, hneg, hpos, Nat.pow_zero, Nat.mul_one, shownUnit_eq,
      Nat.add_sub_cancel]
  rw [← hratio, scientific, shownDecimal, roundedDigits, shownUnit_eq]
  simp only [Nat.add_sub_cancel]
  split_ifs with hcarry
  · rw [hcarry, Nat.pow_succ, Nat.mul_assoc, ← Nat.pow_succ', ← convertDecimal_shift]
    congr 1
    push_cast
    omega
  · rw [← convertDecimal_shift]
    congr 1
    push_cast
    omega

/-- Trimming makes a fraction no longer. -/
theorem length_trimZeros_le (fraction : Bytes) : (trimZeros fraction).length ≤ fraction.length := by
  obtain ⟨k, hk⟩ := exists_trimZeros_append fraction
  have hlength := congrArg List.length hk
  rw [List.length_append] at hlength
  omega

/-- The point is one byte more. -/
theorem length_pointed_le (whole fraction : Bytes) :
    (pointed whole fraction).length ≤ whole.length + fraction.length + 1 := by
  unfold pointed
  split_ifs
  · omega
  · simp only [List.length_append, List.length_cons]
    omega

/-- The exponent of a double has three digits at most. -/
theorem length_exponentText_le {exponent : Int} (h : exponent.natAbs < 1000) :
    (exponentText exponent).length ≤ 5 := by
  have hdigits : (decimalText exponent.natAbs).length ≤ 3 ∧
      (exponent.natAbs < 10 → (decimalText exponent.natAbs).length = 1) := by
    by_cases hone : exponent.natAbs < 10
    · have hlength : (decimalText exponent.natAbs).length = 1 := by
        rw [decimalText, if_pos hone]
        rfl
      omega
    · by_cases htwo : exponent.natAbs < 100
      · have hlength := length_decimalText (n := exponent.natAbs) (k := 1) (by omega) (by omega)
        omega
      · have hlength := length_decimalText (n := exponent.natAbs) (k := 2) (by omega) (by omega)
        omega
  unfold exponentText
  simp only [List.length_cons]
  split_ifs with hone
  · rw [List.length_cons, hdigits.2 hone]
    decide
  · omega

/-- A `%g` text has its digits, a point or zeros in front, and an exponent. -/
theorem length_generalText_le {precision digits : Nat} {exponent : Int}
    (hdigits : (decimalText digits).length = precision) (hexponent : exponent.natAbs < 1000) :
    (generalText precision digits exponent).length ≤ precision + 6 := by
  have hsplit : ∀ k, (pointed ((decimalText digits).take k)
      (trimZeros ((decimalText digits).drop k))).length ≤ precision + 1 := by
    intro k
    have hpointed := length_pointed_le ((decimalText digits).take k)
      (trimZeros ((decimalText digits).drop k))
    have htrimmed := length_trimZeros_le ((decimalText digits).drop k)
    have hsum := congrArg List.length (List.take_append_drop k (decimalText digits))
    rw [List.length_append] at hsum
    omega
  unfold generalText
  simp only
  split_ifs with hscientific hfixed
  · rw [List.length_append]
    have hexponentText := length_exponentText_le hexponent
    have hmantissa := hsplit 1
    omega
  · exact (hsplit _).trans (by omega)
  · -- at most three zeros stand before the digits
    have hpointed := length_pointed_le [zeroDigit]
      (trimZeros (List.replicate (exponent.natAbs - 1) zeroDigit ++ decimalText digits))
    have htrimmed := length_trimZeros_le
      (List.replicate (exponent.natAbs - 1) zeroDigit ++ decimalText digits)
    rw [List.length_append, List.length_replicate] at htrimmed
    rw [List.length_singleton] at hpointed
    omega

/-- The leading place of a double is bounded. -/
theorem leadingPlace_lt {num den : Nat} (hden : 0 < den) (hnum : num < 2 ^ 1024 * den) :
    leadingPlace num den < 634 := by
  apply Nat.log_lt_of_lt_pow' (by decide)
  have hscaled : num * 10 ^ decimalOffset / den < 2 ^ 1024 * 10 ^ decimalOffset := by
    rw [Nat.div_lt_iff_lt_mul hden, Nat.mul_right_comm]
    exact Nat.mul_lt_mul_of_pos_right hnum (Nat.pow_pos (by decide))
  exact hscaled.trans (by decide +kernel)

/-- Rounding can move the exponent by one. -/
theorem scientific_exponent (precision num den : Nat) :
    (scientific precision num den).2 = leadingPlace num den - decimalOffset ∨
      (scientific precision num den).2 = leadingPlace num den - decimalOffset + 1 := by
  rw [scientific]
  split
  · exact .inr rfl
  · exact .inl rfl

/-- The decimal exponent of a double has at most three digits. -/
theorem natAbs_scientific_lt {num den : Nat} (hplace : leadingPlace num den < 634)
    (precision : Nat) : (scientific precision num den).2.natAbs < 1000 := by
  have hoffset : (decimalOffset : Int) = 324 := rfl
  rcases scientific_exponent precision num den with hexponent | hexponent
  · rw [hexponent, hoffset]
    omega
  · rw [hexponent, hoffset]
    omega

/-- **The length of a formatted number**: a sign, a point, the digits, and an exponent or
at most four zeros. -/
theorem length_formatGeneral_le {precision : Nat} (hp : 0 < precision) (x : Binary64) :
    (formatGeneral precision x).length ≤ precision + 7 := by
  have hsign : (if x.negative then [minus] else []).length ≤ 1 := by
    split_ifs <;> decide
  unfold formatGeneral
  rw [List.length_append, Nat.add_comm precision]
  refine (Nat.add_le_add_right hsign _).trans ?_
  split_ifs with hnan hinf hzero
  · rw [show (ascii "nan").length = 3 from rfl]
    omega
  · rw [show (ascii "inf").length = 3 from rfl]
    omega
  · rw [List.length_singleton]
    omega
  · have hbig : Binary64.quantaPerUnit ≤ x.quanta * 10 ^ decimalOffset :=
      le_trans quantaPerUnit_le (Nat.le_mul_of_pos_left _ (Nat.pos_of_ne_zero hzero))
    obtain ⟨hlo, hhi⟩ := scientific_bounds hp Binary64.quantaPerUnit_pos hbig
    have hdigits := length_decimalText (k := precision - 1) hlo (by rwa [Nat.sub_add_cancel hp])
    rw [Nat.sub_add_cancel hp] at hdigits
    have hplace := leadingPlace_lt Binary64.quantaPerUnit_pos 
      (Binary64.quanta_lt (Bool.eq_false_iff.mpr hnan) (Bool.eq_false_iff.mpr hinf))
    have hgeneral := length_generalText_le hdigits (natAbs_scientific_lt hplace precision)
    exact (Nat.add_le_add_left hgeneral 1).trans (by omega)

end DecimalText
