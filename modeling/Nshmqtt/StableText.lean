import Nshmqtt.DecimalRoundTrip

/-!
# Formatting again

A number that is formatted, read back and formatted again has the same text the
second time.  The text rounds to a decimal of a few digits, reading it rounds that
decimal to the nearest double, and this second error is far below half a digit, so the
digits are found again.  The one place where the leading digit can move is just below a
power of ten; there one digit more is rounded, up to the power, and the carry restores
the digits.

* `scientific_of_near` finds the digits of any number that is near enough to a decimal;
* `reading_error` bounds how far a decimal moves when it is read;
* `formatGeneral_reread` puts them together, for up to fourteen digits.
-/

/-- Above the middle the rounding goes up. -/
theorem le_roundHalfEven_of_half_lt {k num den : Nat} (hden : 0 < den)
    (h : 2 * k * den < 2 * num + den) : k ≤ roundHalfEven num den := by
  have hsplit := Nat.div_add_mod num den
  have hmod := Nat.mod_lt num hden
  rcases Nat.lt_or_ge (num / den) k with hlt | hge
  · have hqk : num / den + 1 = k := by
      by_contra hne
      have hmul : (num / den + 2) * den ≤ k * den := Nat.mul_le_mul_right den (by omega)
      nlinarith
    have hr : den < 2 * (num % den) := by
      rw [← hqk] at h
      nlinarith
    unfold roundHalfEven
    split_ifs <;> omega
  · unfold roundHalfEven
    split_ifs <;> omega

/-- The rounded multiple is at most half a unit away. -/
theorem roundHalfEven_error {num den : Nat} (hden : 0 < den) :
    2 * (roundHalfEven num den * den) ≤ 2 * num + den ∧
      2 * num ≤ 2 * (roundHalfEven num den * den) + den := by
  have hsplit := Nat.div_add_mod num den
  have hmod := Nat.mod_lt num hden
  rw [Nat.mul_comm] at hsplit
  have hsucc : (num / den + 1) * den = num / den * den + den := Nat.succ_mul _ _
  unfold roundHalfEven
  rcases Nat.mod_two_eq_zero_or_one (num / den) with heven | hodd
  · simp only [heven, Nat.add_zero]
    split_ifs <;> omega
  · simp only [hodd]
    split_ifs <;> omega

namespace Binary64

/-- `a` and `b` differ by less than one part in `2 ^ 52` of `b`. -/
structure Near (a b : Nat) : Prop where
  upper : 2 ^ 52 * a ≤ 2 ^ 52 * b + b
  lower : 2 ^ 52 * b ≤ 2 ^ 52 * a + b

theorem Near.refl (a : Nat) : Near a a :=
  ⟨Nat.le_add_right _ _, Nat.le_add_right _ _⟩

/-- What is near a positive number is positive. -/
theorem Near.pos {a b : Nat} (h : Near a b) (hb : 0 < b) : 0 < a := by
  have hlower := h.lower
  omega

/-- The quanta of a code that is put together from a shift and a significand. -/
theorem quantaOfCode_shift {shift m : Nat} (hlo : 2 ^ 52 ≤ m) (hhi : m ≤ 2 ^ 53) :
    quantaOfCode (shift * 2 ^ 52 + m) = m * 2 ^ shift := by
  rcases Nat.lt_or_ge m (2 ^ 53) with hlt | hge
  · have hdiv : (shift * 2 ^ 52 + m) / 2 ^ 52 = shift + 1 := by omega
    have hmod : 2 ^ 52 + (shift * 2 ^ 52 + m) % 2 ^ 52 = m := by omega
    rw [quantaOfCode, hdiv, hmod, if_neg (Nat.succ_ne_zero _), Nat.add_sub_cancel]
  · -- the carry out of the significand is one more in the exponent
    obtain rfl : m = 2 ^ 53 := by omega
    have hdiv : (shift * 2 ^ 52 + 2 ^ 53) / 2 ^ 52 = shift + 2 := by omega
    have hmod : (shift * 2 ^ 52 + 2 ^ 53) % 2 ^ 52 = 0 := by omega
    rw [quantaOfCode, hdiv, hmod, if_neg (by omega), Nat.add_zero,
      show shift + 2 - 1 = 1 + shift by omega, Nat.pow_add, ← Nat.mul_assoc,
      ← Nat.pow_succ]

/-- Below the first normal number the code is the number of quanta. -/
theorem quantaOfCode_of_lt {c : Nat} (h : c < 2 ^ 52) : quantaOfCode c = c := by
  have hdiv : c / 2 ^ 52 = 0 := by omega
  rw [quantaOfCode, if_pos hdiv, Nat.mod_eq_of_lt h]

section Reading

variable {num den : Nat}

/-- The significand that `magnitudeCode` rounds to. -/
theorem magnitudeCode_eq (num den : Nat) :
    magnitudeCode num den = (Nat.log2 (num * quantaPerUnit / den) - 52) * 2 ^ 52 +
      roundHalfEven (num * quantaPerUnit)
        (den * 2 ^ (Nat.log2 (num * quantaPerUnit / den) - 52)) :=
  rfl

/-- A rounded normal significand is off by one part in `2 ^ 52` at most. -/
theorem near_of_normal (hden : 0 < den) (hnormal : 2 ^ 52 ≤ magnitudeCode num den) :
    Near (quantaOfCode (magnitudeCode num den) * den) (num * quantaPerUnit) := by
  rw [magnitudeCode_eq] at hnormal ⊢
  set quanta := num * quantaPerUnit with hquanta
  set shift := Nat.log2 (quanta / den) - 52 with hshift
  have hunit : 0 < den * 2 ^ shift := Nat.mul_pos hden (Nat.two_pow_pos _)
  -- the quotient in units of the last place
  have hupper : roundHalfEven quanta (den * 2 ^ shift) ≤ 2 ^ 53 := by
    apply roundHalfEven_le hunit
    have hself := Nat.lt_log2_self (n := quanta / den)
    have hlt : quanta < den * (quanta / den + 1) := Nat.lt_mul_div_succ _ hden
    calc quanta ≤ den * (quanta / den + 1) := hlt.le
      _ ≤ den * 2 ^ (53 + shift) := by
          apply Nat.mul_le_mul_left
          exact Nat.succ_le_of_lt
            (hself.trans_le (Nat.pow_le_pow_right (by decide) (by omega)))
      _ = 2 ^ 53 * (den * 2 ^ shift) := by rw [Nat.pow_add, Nat.mul_left_comm]
  have hlower : 2 ^ 52 ≤ roundHalfEven quanta (den * 2 ^ shift) := by
    by_cases hzero : shift = 0
    · rw [hzero, Nat.zero_mul, Nat.zero_add] at hnormal
      rwa [hzero]
    · have hlog : Nat.log2 (quanta / den) = 52 + shift := by omega
      apply le_roundHalfEven hunit
      have hquotient : quanta / den ≠ 0 := by
        intro h
        rw [h, Nat.log2_zero] at hlog
        omega
      have hself := Nat.log2_self_le hquotient
      rw [hlog] at hself
      calc 2 ^ 52 * (den * 2 ^ shift) = 2 ^ (52 + shift) * den := by
            rw [Nat.pow_add, Nat.mul_left_comm, Nat.mul_comm den]
        _ ≤ quanta / den * den := Nat.mul_le_mul_right _ hself
        _ ≤ quanta := Nat.div_mul_le_self _ _
  obtain ⟨hover, hunder⟩ := @roundHalfEven_error quanta _ hunit
  rw [quantaOfCode_shift hlower hupper, Nat.mul_assoc, Nat.mul_comm (2 ^ shift)]
  have hleast : 2 ^ 52 * (den * 2 ^ shift) ≤
      roundHalfEven quanta (den * 2 ^ shift) * (den * 2 ^ shift) :=
    Nat.mul_le_mul_right _ hlower
  constructor <;> omega

/-- An exact subnormal result is not off at all. -/
theorem quanta_of_exact (hden : 0 < den) (hsmall : magnitudeCode num den < 2 ^ 52)
    (hexact : num * quantaPerUnit % den = 0) :
    quantaOfCode (magnitudeCode num den) * den = num * quantaPerUnit := by
  rw [quantaOfCode_of_lt hsmall]
  rw [magnitudeCode_eq] at hsmall ⊢
  set quanta := num * quantaPerUnit with hquanta
  have hshift : Nat.log2 (quanta / den) - 52 = 0 := by omega
  rw [hshift, Nat.zero_mul, Nat.zero_add, Nat.pow_zero, Nat.mul_one]
  exact (roundHalfEven_mul_eq_iff hden).mpr (Nat.dvd_of_mod_eq_zero hexact)

/-- **The reading error.**  What is read without a range error is off by one part in
`2 ^ 52` at most. -/
theorem reading_error (hden : 0 < den) (h : rangeError num den = false) :
    Near (quantaOfCode (magnitudeCode num den) * den) (num * quantaPerUnit) := by
  rw [rangeError, Bool.or_eq_false_iff, Bool.and_eq_false_iff] at h
  rcases Nat.lt_or_ge (magnitudeCode num den) (2 ^ 52) with hsmall | hnormal
  · have hexact : num * quantaPerUnit % den = 0 := by
      rcases h.2 with h | h
      · exact absurd hsmall (of_decide_eq_false h)
      · simpa using h
    rw [quanta_of_exact hden hsmall hexact]
    exact Near.refl _
  · exact near_of_normal hden hnormal

end Reading

theorem negative_ofCode (negative : Bool) (c : Nat) : (ofCode negative c).negative = negative :=
  rfl

/-- A code below infinity is that of a number. -/
theorem isNan_ofCode (negative : Bool) {c : Nat} (hc : c < infinityCode) :
    (ofCode negative c).isNan = false ∧ (ofCode negative c).isInf = false := by
  have hexponent : c / 2 ^ 52 % 2048 ≠ 2047 := by
    unfold infinityCode at hc
    omega
  simp only [isNan, isInf, ofCode, beq_eq_false_iff_ne.mpr hexponent, Bool.false_and, and_self]

end Binary64

namespace DecimalText

open ByteStrings Binary64

section Digits

variable {precision num den digits place : Nat}

/-- The leading place, by the powers of ten around the quotient. -/
theorem leadingPlace_eq (hden : 0 < den) (hlo : den * 10 ^ place ≤ num * 10 ^ decimalOffset)
    (hhi : num * 10 ^ decimalOffset < den * 10 ^ (place + 1)) : leadingPlace num den = place := by
  apply Nat.log_eq_of_pow_le_of_lt_pow
  · rwa [Nat.le_div_iff_mul_le hden, Nat.mul_comm]
  · rwa [Nat.div_lt_iff_lt_mul hden, Nat.mul_comm (10 ^ (place + 1))]

/-- Of a number whose rounded digits need no carry. -/
theorem scientific_of_rounded (hplace : leadingPlace num den = place)
    (hrounded : roundedDigits precision num den = digits) (hlt : digits < 10 ^ precision) :
    scientific precision num den = (digits, (place : Int) - decimalOffset) := by
  rw [roundedDigits, shownUnit_eq, hplace] at hrounded
  rw [scientific]
  simp only [hplace, hrounded]
  rw [if_neg hlt.ne]

/-- Of a number that is rounded up to a power of ten. -/
theorem scientific_of_carry (hplace : leadingPlace num den = place)
    (hrounded : roundedDigits precision num den = 10 ^ precision) :
    scientific precision num den =
      (10 ^ (precision - 1), (place : Int) - decimalOffset + 1) := by
  rw [roundedDigits, shownUnit_eq, hplace] at hrounded
  rw [scientific]
  simp only [hplace, hrounded, if_true]

/-- `num / den` is within a twentieth of the last digit of a decimal. -/
structure NearDecimal (precision num den digits place : Nat) : Prop where
  upper : 20 * (num * shownUnit precision) < 20 * (digits * (den * 10 ^ place)) + den * 10 ^ place
  lower : 20 * (digits * (den * 10 ^ place)) < 20 * (num * shownUnit precision) + den * 10 ^ place

variable (hp : 0 < precision) (hden : 0 < den)

include hp hden

/-- The digits of a number in the decade of the decimal. -/
theorem scientific_of_decade (hnear : NearDecimal precision num den digits place)
    (hhi : digits < 10 ^ precision)
    (hdecade : 10 ^ (precision - 1) * (den * 10 ^ place) ≤ num * shownUnit precision) :
    scientific precision num den = (digits, (place : Int) - decimalOffset) := by
  obtain ⟨hupper, hlower⟩ := hnear
  have hunit : 0 < den * 10 ^ place := Nat.mul_pos hden (Nat.pow_pos (by decide))
  have hpow : 0 < 10 ^ (precision - 1) := Nat.pow_pos (by decide)
  have htop : (digits + 1) * (den * 10 ^ place) ≤ 10 ^ precision * (den * 10 ^ place) :=
    Nat.mul_le_mul_right _ hhi
  have hplace : leadingPlace num den = place := by
    apply leadingPlace_eq hden
    · rw [mul_shownUnit, Nat.mul_comm] at hdecade
      exact Nat.le_of_mul_le_mul_right hdecade hpow
    · have hnum : num * shownUnit precision < 10 ^ precision * (den * 10 ^ place) := by
        rw [Nat.succ_mul] at htop
        omega
      rw [mul_shownUnit] at hnum
      apply Nat.lt_of_mul_lt_mul_right (a := 10 ^ (precision - 1))
      calc num * 10 ^ decimalOffset * 10 ^ (precision - 1)
          < 10 ^ precision * (den * 10 ^ place) := hnum
        _ = den * 10 ^ (place + 1) * 10 ^ (precision - 1) := by
            obtain ⟨p, rfl⟩ : ∃ p, precision = p + 1 := ⟨precision - 1, by omega⟩
            rw [Nat.add_sub_cancel, Nat.pow_succ, Nat.pow_succ]
            ring
  apply scientific_of_rounded hplace _ hhi
  rw [roundedDigits, hplace]
  apply Nat.le_antisymm
  · apply roundHalfEven_le_of_lt_half
    rw [Nat.add_mul, Nat.mul_assoc, Nat.one_mul]
    omega
  · apply le_roundHalfEven_of_half_lt hunit
    rw [Nat.mul_assoc]
    omega

/-- Just below a power of ten the place is one lower, and the rounding carries. -/
theorem scientific_of_below (hnear : NearDecimal precision num den (10 ^ (precision - 1)) place)
    (hbig : den ≤ num * 10 ^ decimalOffset)
    (hbelow : num * shownUnit precision < 10 ^ (precision - 1) * (den * 10 ^ place)) :
    scientific precision num den = (10 ^ (precision - 1), (place : Int) - decimalOffset) := by
  obtain ⟨-, hlower⟩ := hnear
  obtain ⟨p, rfl⟩ : ∃ p, precision = p + 1 := ⟨precision - 1, by omega⟩
  rw [Nat.add_sub_cancel] at hbelow hlower ⊢
  have hpow : 0 < 10 ^ p := Nat.pow_pos (by decide)
  have hscaled : num * 10 ^ decimalOffset < den * 10 ^ place := by
    rw [mul_shownUnit, Nat.add_sub_cancel, Nat.mul_comm] at hbelow
    exact Nat.lt_of_mul_lt_mul_left hbelow
  obtain ⟨k, rfl⟩ : ∃ k, place = k + 1 := by
    apply Nat.exists_eq_succ_of_ne_zero
    intro hzero
    rw [hzero, Nat.pow_zero, Nat.mul_one] at hscaled
    omega
  have hten : den * 10 ^ (k + 1) = 10 * (den * 10 ^ k) := by
    rw [Nat.pow_succ]
    ring
  have hunit : 0 < den * 10 ^ k := Nat.mul_pos hden (Nat.pow_pos (by decide))
  have hcarry : 10 ^ p * (den * 10 ^ (k + 1)) = 10 ^ (p + 1) * (den * 10 ^ k) := by
    rw [hten, Nat.pow_succ]
    ring
  rw [hcarry] at hbelow hlower
  rw [hten] at hlower
  have hleast : 1 * (den * 10 ^ k) ≤ 10 ^ p * (den * 10 ^ k) := Nat.mul_le_mul_right _ hpow
  have hpower : 10 ^ (p + 1) * (den * 10 ^ k) = 10 * (10 ^ p * (den * 10 ^ k)) := by
    rw [Nat.pow_succ]
    ring
  have hplace : leadingPlace num den = k := by
    apply leadingPlace_eq hden _ hscaled
    have hnum : 10 ^ p * (den * 10 ^ k) ≤ num * shownUnit (p + 1) := by omega
    rw [mul_shownUnit, Nat.add_sub_cancel, Nat.mul_comm] at hnum
    exact Nat.le_of_mul_le_mul_right hnum hpow
  have hrounded : roundedDigits (p + 1) num den = 10 ^ (p + 1) := by
    rw [roundedDigits, hplace]
    apply Nat.le_antisymm
    · exact roundHalfEven_le hunit hbelow.le
    · apply le_roundHalfEven_of_half_lt hunit
      rw [Nat.mul_assoc]
      omega
  rw [scientific_of_carry hplace hrounded, Nat.add_sub_cancel]
  congr 1
  push_cast
  omega

/-- **The digits are found again.**  A number near a decimal is formatted with the
digits of the decimal. -/
theorem scientific_of_near (hnear : NearDecimal precision num den digits place)
    (hlo : 10 ^ (precision - 1) ≤ digits) (hhi : digits < 10 ^ precision)
    (hbig : den ≤ num * 10 ^ decimalOffset) :
    scientific precision num den = (digits, (place : Int) - decimalOffset) := by
  rcases Nat.lt_or_ge (num * shownUnit precision) (10 ^ (precision - 1) * (den * 10 ^ place))
    with hbelow | hdecade
  · have hdigits : digits = 10 ^ (precision - 1) := by
      have hlower := hnear.lower
      have hunit : 0 < den * 10 ^ place := Nat.mul_pos hden (Nat.pow_pos (by decide))
      by_contra hne
      have hnext : (10 ^ (precision - 1) + 1) * (den * 10 ^ place) ≤
          digits * (den * 10 ^ place) := Nat.mul_le_mul_right _ (by omega)
      rw [Nat.succ_mul] at hnext
      omega
    subst hdigits
    exact scientific_of_below hp hden hnear hbig hbelow
  · exact scientific_of_decade hp hden hnear hhi hdecade

omit hp hden in
/-- The written decimal by its digits and its place, with a carry or without. -/
theorem exists_place (hp : 0 < precision) (num den : Nat) :
    ∃ place : Nat, (scientific precision num den).2 = (place : Int) - decimalOffset ∧
      shownDecimal precision num den = (scientific precision num den).1 * 10 ^ place := by
  by_cases hcarry : roundedDigits precision num den = 10 ^ precision
  · refine ⟨leadingPlace num den + 1, ?_, ?_⟩
    · rw [scientific_of_carry rfl hcarry]
      push_cast
      omega
    · obtain ⟨p, rfl⟩ : ∃ p, precision = p + 1 := ⟨precision - 1, by omega⟩
      rw [scientific_of_carry rfl hcarry, shownDecimal, hcarry, Nat.add_sub_cancel, Nat.pow_succ,
        Nat.pow_succ]
      ring
  · refine ⟨leadingPlace num den, ?_, ?_⟩
    · have hrounded := hcarry
      rw [roundedDigits, shownUnit_eq] at hrounded
      rw [scientific, if_neg hrounded]
    · have hrounded := hcarry
      rw [roundedDigits, shownUnit_eq] at hrounded
      rw [scientific, if_neg hrounded, shownDecimal, roundedDigits, shownUnit_eq]

end Digits

section Text

variable {precision : Nat} {x : Binary64}

/-- The value read from a text is near the decimal that the text says. -/
theorem nearDecimal_of_reading {q digits place : Nat} (hfew : precision ≤ 14)
    (hhi : digits < 10 ^ precision)
    (h : Near (q * shownUnit precision) (digits * 10 ^ place * quantaPerUnit)) :
    NearDecimal precision q quantaPerUnit digits place := by
  have hunit : 0 < quantaPerUnit * 10 ^ place :=
    Nat.mul_pos quantaPerUnit_pos (Nat.pow_pos (by decide))
  have hpow : 20 * digits < 2 ^ 52 := by
    have hmono : 10 ^ precision ≤ 10 ^ 14 := Nat.pow_le_pow_right (by decide) hfew
    omega
  have hsmall : 20 * digits * (quantaPerUnit * 10 ^ place) <
      2 ^ 52 * (quantaPerUnit * 10 ^ place) := Nat.mul_lt_mul_of_pos_right hpow hunit
  rw [show digits * 10 ^ place * quantaPerUnit = digits * (quantaPerUnit * 10 ^ place) by ring] at h
  obtain ⟨hupper, hlower⟩ := h
  rw [Nat.mul_assoc] at hsmall
  constructor <;> omega

variable (hp : 0 < precision) (hfew : precision ≤ 14)

include hp hfew

/-- A finite nonzero number has the same digits after it was read back. -/
theorem scientific_reread {q : Nat} (hq : 0 < q)
    (hno : rangeError (shownDecimal precision q quantaPerUnit) (shownUnit precision) = false) :
    let code := magnitudeCode (shownDecimal precision q quantaPerUnit) (shownUnit precision)
    0 < quantaOfCode code ∧
      scientific precision (quantaOfCode code) quantaPerUnit =
        scientific precision q quantaPerUnit := by
  intro code
  have hbig : ∀ n, 0 < n → quantaPerUnit ≤ n * 10 ^ decimalOffset :=
    fun n hn => quantaPerUnit_le.trans (Nat.le_mul_of_pos_left _ hn)
  obtain ⟨hlo, hhi⟩ := scientific_bounds hp quantaPerUnit_pos (hbig q hq)
  obtain ⟨place, hexponent, hshown⟩ := exists_place hp q quantaPerUnit
  generalize scientific precision q quantaPerUnit = decimal at hlo hhi hexponent hshown ⊢
  obtain ⟨digits, exponent⟩ := decimal
  simp only at hlo hhi hexponent hshown
  subst hexponent
  have hnear : Near (quantaOfCode code * shownUnit precision)
      (digits * 10 ^ place * quantaPerUnit) := by
    rw [← hshown]
    exact reading_error (shownUnit_pos precision) hno
  have hdigits : 0 < digits := Nat.lt_of_lt_of_le (Nat.pow_pos (by decide)) hlo
  have hshownPos : 0 < digits * 10 ^ place * quantaPerUnit :=
    Nat.mul_pos (Nat.mul_pos hdigits (Nat.pow_pos (by decide))) quantaPerUnit_pos
  have hpos : 0 < quantaOfCode code := Nat.pos_of_mul_pos_right (hnear.pos hshownPos)
  exact ⟨hpos, scientific_of_near hp quantaPerUnit_pos (nearDecimal_of_reading hfew hhi hnear)
    hlo hhi (hbig _ hpos)⟩

/-- **Formatting again.**  A finite number whose text is read without a range error has
the same text after that. -/
theorem formatGeneral_reread {read : Converted Binary64} (hnan : x.isNan = false)
    (hinf : x.isInf = false) (hzero : x.quanta ≠ 0)
    (hread : strtod (formatGeneral precision x) = some read) (hno : read.outOfRange = false) :
    formatGeneral precision read.value = formatGeneral precision x := by
  rw [strtod_formatGeneral hp hnan hinf hzero, convertDecimal_scientific _ hp,
    Option.some.injEq] at hread
  subst hread
  simp only at hno ⊢
  obtain ⟨hpos, hdigits⟩ := scientific_reread hp hfew (Nat.pos_of_ne_zero hzero) hno
  have hfinite : magnitudeCode (shownDecimal precision x.quanta quantaPerUnit)
      (shownUnit precision) < infinityCode := by
    rw [rangeError, Bool.or_eq_false_iff] at hno
    exact Nat.not_le.mp (of_decide_eq_false hno.1)
  rw [ofRatio_of_lt _ hfinite]
  obtain ⟨hnan', hinf'⟩ := isNan_ofCode x.negative hfinite
  have hquanta : (ofCode x.negative (magnitudeCode (shownDecimal precision x.quanta quantaPerUnit)
      (shownUnit precision))).quanta =
      quantaOfCode (magnitudeCode (shownDecimal precision x.quanta quantaPerUnit)
        (shownUnit precision)) := by
    rw [quanta, code_ofCode _ hfinite]
  unfold formatGeneral
  rw [hnan', hinf', hquanta, if_neg hpos.ne', hdigits, hnan, hinf, if_neg hzero, negative_ofCode]

end Text

end DecimalText
