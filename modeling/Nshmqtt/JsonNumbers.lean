import Nshmqtt.JsonLeaves

/-!
# Formatted numbers as JSON

The `%g` text of a finite double is a number of the grammar in each of its layouts:
the digits of a positive number start with no zero, a trimmed fraction is left out
together with its point, and an exponent has digits.  The texts of infinities and of
NaN are no values at all.
-/

namespace DecimalText

open ByteStrings JsonGrammar

/-- The digits of a positive number do not start with a zero. -/
theorem head_decimalText {n : Nat} (hn : 0 < n) : (decimalText n).head? ≠ some zeroDigit := by
  induction n using decimalText.induct with
  | case1 n hlt =>
      have hdigit : ∀ d < 10, 0 < d → zeroDigit + UInt8.ofNat d ≠ zeroDigit := by decide
      rw [decimalText, if_pos hlt, List.head?_cons, ne_eq, Option.some.injEq]
      exact hdigit n hlt hn
  | case2 n hlt ih =>
      rw [decimalText, if_neg hlt, List.head?_append_of_ne_nil _ (decimalText_ne_nil _)]
      exact ih (by omega)

theorem isdigit_decimalText (n : Nat) : ∀ c ∈ decimalText n, isdigit c = true :=
  fun _ hc => isdigit_of_mem_decimalText hc

def signText (negative : Bool) : Bytes := if negative then [minus] else []

/-- The digits before and behind a decimal point. -/
structure IsMantissa (whole fraction : Bytes) : Prop where
  nonempty : whole ≠ []
  wholeDigits : ∀ c ∈ whole, isdigit c = true
  noLeadingZero : whole.head? = some zeroDigit → whole = [zeroDigit]
  fractionDigits : ∀ c ∈ fraction, isdigit c = true

namespace IsMantissa

variable {whole fraction : Bytes}

/-- The number with this mantissa, a sign and possibly an exponent. -/
def number (h : IsMantissa whole fraction) (negative : Bool) (sign exponent : Bytes)
    (hsign : sign = [] ∨ sign = [plus] ∨ sign = [minus])
    (hexponent : ∀ c ∈ exponent, isdigit c = true) : NumberText where
  negative := negative
  whole := whole
  fraction := fraction
  marker := 101
  sign := sign
  exponent := exponent
  wholeNonempty := h.nonempty
  wholeDigits := h.wholeDigits
  noLeadingZero := h.noLeadingZero
  fractionDigits := h.fractionDigits
  markerOk := .inl rfl
  signOk := hsign
  exponentDigits := hexponent

/-- A mantissa is a number of JSON. -/
theorem isValue (h : IsMantissa whole fraction) (negative : Bool) :
    IsValue (signText negative ++ pointed whole fraction) := by
  refine ⟨.number (h.number negative [] [] (.inl rfl) (List.forall_mem_nil _)), ?_⟩
  cases negative <;> cases fraction <;> simp [Value.render, NumberText.text, NumberText.fractionText,
    NumberText.exponentText, number, signText, pointed]

theorem isValue_scaled (h : IsMantissa whole fraction) (negative : Bool) {sign exponent : Bytes}
    (hsign : sign = [] ∨ sign = [plus] ∨ sign = [minus])
    (hexponent : ∀ c ∈ exponent, isdigit c = true) (hne : exponent ≠ []) :
    IsValue (signText negative ++ (pointed whole fraction ++ 101 :: (sign ++ exponent))) := by
  refine ⟨.number (h.number negative sign exponent hsign hexponent), ?_⟩
  cases negative <;> cases fraction <;> simp [Value.render, NumberText.text, NumberText.fractionText,
    NumberText.exponentText, number, signText, pointed, hne]

theorem isValue_exponent (h : IsMantissa whole fraction) (negative : Bool) (exponent : Int) :
    IsValue (signText negative ++ (pointed whole fraction ++ exponentText exponent)) := by
  have htext : exponentText exponent = 101 :: ([if exponent < 0 then minus else plus] ++
      if exponent.natAbs < 10 then zeroDigit :: decimalText exponent.natAbs
      else decimalText exponent.natAbs) := rfl
  rw [htext]
  apply h.isValue_scaled
  · split_ifs
    · exact .inr (.inr rfl)
    · exact .inr (.inl rfl)
  · split_ifs
    · exact List.forall_mem_cons.mpr ⟨by decide, isdigit_decimalText _⟩
    · exact isdigit_decimalText _
  · split_ifs
    · nofun
    · exact decimalText_ne_nil _

end IsMantissa

/-- A whole number is a mantissa. -/
theorem isMantissa_integer (n : Nat) : IsMantissa (decimalText n) [] where
  nonempty := decimalText_ne_nil n
  wholeDigits := isdigit_decimalText n
  noLeadingZero hzero := by
    rcases Nat.eq_zero_or_pos n with rfl | hn
    · rw [decimalText]
      rfl
    · exact absurd hzero (head_decimalText hn)
  fractionDigits := List.forall_mem_nil _

theorem isValue_decimalText (n : Nat) : IsValue (decimalText n) :=
  (isMantissa_integer n).isValue false

theorem isValue_integerText (n : Int) : IsValue (integerText n) := by
  unfold integerText
  split_ifs
  · exact (isMantissa_integer n.natAbs).isValue true
  · exact isValue_decimalText n.natAbs

/-- The significant digits, cut at a place behind the first. -/
theorem isMantissa_digits {digits : Nat} (hdigits : 0 < digits) (place : Nat) :
    IsMantissa ((decimalText digits).take (place + 1))
      (trimZeros ((decimalText digits).drop (place + 1))) where
  nonempty := by
    intro hnil
    rcases List.take_eq_nil_iff.mp hnil with hplace | htext
    · cases hplace
    · exact decimalText_ne_nil digits htext
  wholeDigits c hc := isdigit_decimalText digits c (List.mem_of_mem_take hc)
  noLeadingZero hzero := by
    rw [List.head?_take, if_neg (Nat.succ_ne_zero place)] at hzero
    exact absurd hzero (head_decimalText hdigits)
  fractionDigits c hc := isdigit_decimalText digits c (List.mem_of_mem_drop (mem_of_mem_trimZeros hc))

/-- **All layouts** of a positive number are JSON. -/
theorem isValue_generalText (negative : Bool) (precision : Nat) {digits : Nat}
    (hdigits : 0 < digits) (exponent : Int) :
    IsValue (signText negative ++ generalText precision digits exponent) := by
  unfold generalText
  split_ifs
  · exact (isMantissa_digits hdigits 0).isValue_exponent negative exponent
  · exact (isMantissa_digits hdigits exponent.toNat).isValue negative
  · have hmantissa : IsMantissa [zeroDigit]
        (trimZeros (List.replicate (exponent.natAbs - 1) zeroDigit ++ decimalText digits)) := by
      refine ⟨List.cons_ne_nil _ _, List.forall_mem_singleton.mpr (by decide), fun _ => rfl,
        fun c hc => ?_⟩
      rcases List.mem_append.mp (mem_of_mem_trimZeros hc) with hc | hc
      · rw [List.eq_of_mem_replicate hc]
        decide
      · exact isdigit_decimalText digits c hc
    exact hmantissa.isValue negative

/-- Neither an infinity nor NaN. -/
def isFinite (x : Binary64) : Bool := !x.isNan && !x.isInf

/-- **The texts of finite doubles** are numbers of JSON. -/
theorem isValue_formatGeneral {precision : Nat} (hp : 0 < precision) {x : Binary64}
    (hfinite : isFinite x = true) : IsValue (formatGeneral precision x) := by
  simp only [isFinite, Bool.and_eq_true, Bool.not_eq_true'] at hfinite
  unfold formatGeneral
  rw [hfinite.1, hfinite.2, if_neg Bool.false_ne_true, if_neg Bool.false_ne_true]
  by_cases hzero : x.quanta = 0
  · have hdigit : decimalText 0 = [zeroDigit] := by
      rw [decimalText]
      rfl
    have hinteger := (isMantissa_integer 0).isValue x.negative
    rw [hdigit] at hinteger
    rw [if_pos hzero]
    exact hinteger
  · have hbig : Binary64.quantaPerUnit ≤ x.quanta * 10 ^ decimalOffset :=
      le_trans quantaPerUnit_le (Nat.le_mul_of_pos_left _ (Nat.pos_of_ne_zero hzero))
    have hlow := (scientific_bounds hp Binary64.quantaPerUnit_pos hbig).1
    have hdigits := Nat.lt_of_lt_of_le (Nat.pow_pos (by decide)) hlow
    rw [if_neg hzero]
    exact isValue_generalText x.negative precision hdigits _

/-- There is no `n` in a number, so infinities and NaNs are none. -/
theorem not_mem_number (n : NumberText) : (110 : UInt8) ∉ n.text := by
  intro hc
  have hletter : isdigit 110 = false ∧ (110 : UInt8) ∉ [point, plus, minus, 101, 69] := by decide
  rcases NumberText.mem_text hc with hdigit | hc
  · rw [hletter.1] at hdigit
    cases hdigit
  · exact hletter.2 hc

/-- A text with the letter `n` that is a value is no number, so its first byte tells
what it is. -/
theorem not_isValue_word {negative : Bool} {word : Bytes}
    (hword : word = ascii "nan" ∨ word = ascii "inf") : ¬ IsValue (signText negative ++ word) := by
  have hletter : (110 : UInt8) ∈ signText negative ++ word := by
    rcases hword with rfl | rfl <;> cases negative <;> decide
  have hhead : (signText negative ++ word).head? = some minus ∨
      (signText negative ++ word).head? = some 110 ∨
      (signText negative ++ word).head? = some 105 := by
    rcases hword with rfl | rfl <;> cases negative <;> decide
  have hliteral : signText negative ++ word ≠ ascii "null" ∧
      ∀ b, signText negative ++ word ≠ literal b := by
    rcases hword with rfl | rfl <;> cases negative <;> decide
  intro h
  obtain ⟨value, hvalue⟩ := h
  rw [← hvalue] at hletter hhead hliteral
  cases value with
  | number n =>
      exact not_mem_number n hletter
  | boolean b => exact hliteral.2 b rfl
  | null => exact hliteral.1 rfl
  | string | emptyArray | array | emptyObject | object =>
      revert hhead
      simp +decide [Value.render, StringText.text]

/-- **Exactly the finite numbers** have a text that is JSON. -/
theorem isValue_formatGeneral_iff {precision : Nat} (hp : 0 < precision) (x : Binary64) :
    IsValue (formatGeneral precision x) ↔ isFinite x = true := by
  constructor
  · intro hvalue
    by_contra hinfinite
    rw [isFinite, Bool.and_eq_true, Bool.not_eq_true', Bool.not_eq_true', not_and,
      Bool.not_eq_false] at hinfinite
    unfold formatGeneral at hvalue
    cases hnan : x.isNan with
    | true =>
        rw [if_pos hnan] at hvalue
        exact not_isValue_word (.inl rfl) hvalue
    | false =>
        rw [hnan, if_neg Bool.false_ne_true, if_pos (hinfinite hnan)] at hvalue
        exact not_isValue_word (.inr rfl) hvalue
  · exact isValue_formatGeneral hp

end DecimalText
