import Nshmqtt.TextUtil

/-!
# Integers through the text form

An integer of magnitude up to `2⁵³` is exact as a double, but its text keeps
nine significant digits.  Reading the text back gives the integer rounded to
nine digits, so exactly the integers whose further digits are all zero return
unchanged.
-/

namespace Nshmqtt

open ByteStrings DecimalText Binary64

/-- The place of the last digit that the text of `m` keeps. -/
def keptPlace (m : Nat) : Nat := 10 ^ (Nat.log 10 m - 8)

/-- `m` rounded to nine significant digits. -/
def roundToNine (m : Nat) : Nat := roundHalfEven m (keptPlace m) * keptPlace m

theorem keptPlace_pos (m : Nat) : 0 < keptPlace m := Nat.pow_pos (by decide)

/-- Less than half is rounded down. -/
theorem roundHalfEven_le_of_two_mul {k num den : Nat} (h : 2 * num < (2 * k + 1) * den) :
    roundHalfEven num den ≤ k := by
  have hden : 0 < den := by
    by_contra hz
    have hzero : den = 0 := by omega
    rw [hzero] at h
    omega
  have hsplit := Nat.div_add_mod num den
  have hmod := Nat.mod_lt num hden
  have hbound : 2 * (den * (num / den)) + 2 * (num % den) < 2 * (k * den) + den := by
    calc 2 * (den * (num / den)) + 2 * (num % den)
        = 2 * num := by omega
      _ < (2 * k + 1) * den := h
      _ = 2 * (k * den) + den := by ring
  have hq : num / den ≤ k := by
    by_contra hgt
    have hle : (k + 1) * den ≤ den * (num / den) := by
      rw [Nat.mul_comm den]
      exact Nat.mul_le_mul_right den (by omega)
    rw [Nat.add_mul, Nat.one_mul] at hle
    omega
  unfold roundHalfEven
  rcases Nat.lt_or_ge (num / den) k with hlt | hge
  · split_ifs <;> omega
  · have heq : num / den = k := by omega
    rw [heq, Nat.mul_comm den] at hbound
    rw [if_pos (by omega)]
    omega

/-- The nine kept digits of an integer up to `2⁵³` are again at most `2⁵³`. -/
theorem roundToNine_le {m : Nat} (hm : m ≤ 2 ^ 53) : roundToNine m ≤ 2 ^ 53 := by
  have hlt := Nat.lt_pow_succ_log_self (b := 10) (by decide) m
  unfold roundToNine keptPlace
  rcases Nat.lt_or_ge (Nat.log 10 m) 15 with hlog | hlog
  · have hle : roundHalfEven m (10 ^ (Nat.log 10 m - 8)) ≤ 10 ^ 9 := by
      apply roundHalfEven_le (Nat.pow_pos (by decide))
      calc m ≤ 10 ^ (Nat.log 10 m + 1) := hlt.le
        _ ≤ 10 ^ (9 + (Nat.log 10 m - 8)) := Nat.pow_le_pow_right (by decide) (by omega)
        _ = 10 ^ 9 * 10 ^ (Nat.log 10 m - 8) := Nat.pow_add _ _ _
    calc roundHalfEven m (10 ^ (Nat.log 10 m - 8)) * 10 ^ (Nat.log 10 m - 8)
        ≤ 10 ^ 9 * 10 ^ 6 :=
          Nat.mul_le_mul hle (Nat.pow_le_pow_right (by decide) (by omega))
      _ ≤ 2 ^ 53 := by decide
  · have hne : m ≠ 0 := by
      intro hz
      rw [hz, Nat.log_zero_right] at hlog
      omega
    have hlog15 : Nat.log 10 m = 15 := by
      have hupper : Nat.log 10 m < 16 :=
        Nat.log_lt_of_lt_pow hne (lt_of_le_of_lt hm (by decide))
      omega
    rw [hlog15]
    have hle : roundHalfEven m (10 ^ (15 - 8)) ≤ 900719925 := by
      apply roundHalfEven_le_of_two_mul
      omega
    omega

/-- Zeros at the end count as digits. -/
theorem log_mul_pow {m : Nat} (hm : m ≠ 0) (k : Nat) :
    Nat.log 10 (m * 10 ^ k) = Nat.log 10 m + k := by
  induction k with
  | zero => simp
  | succ k ih =>
      have hne : m * 10 ^ k ≠ 0 := Nat.mul_ne_zero hm (Nat.pow_pos (by decide)).ne'
      rw [Nat.pow_succ, ← Nat.mul_assoc, Nat.log_mul_base (by decide) hne, ih, Nat.add_assoc]

/-- The nine digits taken from the exact quanta are those of the integer. -/
theorem leadingDigits_ofNat {m : Nat} (hm : 0 < m) :
    leadingPlace (m * quantaPerUnit) quantaPerUnit = Nat.log 10 m + decimalOffset ∧
      roundHalfEven (m * quantaPerUnit * 10 ^ (decimalOffset + 8))
        (quantaPerUnit * 10 ^ (Nat.log 10 m + decimalOffset)) =
      roundHalfEven (m * 10 ^ 8) (10 ^ Nat.log 10 m) := by
  constructor
  · unfold leadingPlace
    rw [Nat.mul_right_comm, Nat.mul_div_cancel _ quantaPerUnit_pos]
    exact log_mul_pow hm.ne' _
  · apply roundHalfEven_congr
      (Nat.mul_pos quantaPerUnit_pos (Nat.pow_pos (by decide))) (Nat.pow_pos (by decide))
    rw [Nat.pow_add, Nat.pow_add]
    ring

/-- The decimal of an integer's text is the integer rounded to nine digits. -/
theorem convertDecimal_ofNat (negative : Bool) {m : Nat} (hm : 0 < m) :
    convertDecimal negative (scientific 9 (m * quantaPerUnit) quantaPerUnit).1
        ((scientific 9 (m * quantaPerUnit) quantaPerUnit).2 + 1 - (9 : Nat)) [] =
      convertDecimal negative (roundToNine m) 0 [] := by
  obtain ⟨hplace, hround⟩ := leadingDigits_ofNat hm
  -- both layouts of `scientific` denote the rounded digits at the same place
  have hcarry : convertDecimal negative (scientific 9 (m * quantaPerUnit) quantaPerUnit).1
      ((scientific 9 (m * quantaPerUnit) quantaPerUnit).2 + 1 - (9 : Nat)) [] =
      convertDecimal negative (roundHalfEven (m * 10 ^ 8) (10 ^ Nat.log 10 m))
        ((Nat.log 10 m : Int) - 8) [] := by
    unfold scientific
    simp only [hplace, Nat.add_one_sub_one, hround]
    split_ifs with heq
    · rw [heq]
      have hexp : ((Nat.log 10 m + decimalOffset : Nat) : Int) - decimalOffset + 1 + 1 -
          (9 : Nat) = (Nat.log 10 m : Int) - 8 + (1 : Nat) := by
        push_cast
        ring
      have hten : 10 ^ 8 * 10 ^ 1 = 10 ^ 9 := by decide
      rw [hexp, convertDecimal_shift, hten]
    · have hexp : ((Nat.log 10 m + decimalOffset : Nat) : Int) - decimalOffset + 1 -
          (9 : Nat) = (Nat.log 10 m : Int) - 8 := by
        push_cast
        ring
      rw [hexp]
  rw [hcarry]
  rcases Nat.lt_or_ge (Nat.log 10 m) 8 with hlog | hlog
  · -- fewer than nine digits: nothing is rounded
    have hexact : roundHalfEven (m * 10 ^ 8) (10 ^ Nat.log 10 m) =
        m * 10 ^ (8 - Nat.log 10 m) := by
      have hsplit : m * 10 ^ 8 = m * 10 ^ (8 - Nat.log 10 m) * 10 ^ Nat.log 10 m := by
        rw [Nat.mul_assoc, ← Nat.pow_add, Nat.sub_add_cancel hlog.le]
      rw [hsplit, roundHalfEven_mul_right _ (Nat.pow_pos (by decide))]
    have hkept : roundToNine m = m := by
      have hzero : Nat.log 10 m - 8 = 0 := by omega
      have hone := roundHalfEven_mul_right m Nat.one_pos
      rw [Nat.mul_one] at hone
      simp [roundToNine, keptPlace, hzero, hone]
    have hexp : (Nat.log 10 m : Int) - 8 + (8 - Nat.log 10 m : Nat) = 0 := by omega
    rw [hexact, hkept, ← convertDecimal_shift, hexp]
  · have hdigits : roundHalfEven (m * 10 ^ 8) (10 ^ Nat.log 10 m) =
        roundHalfEven m (keptPlace m) := by
      apply roundHalfEven_congr (Nat.pow_pos (by decide)) (keptPlace_pos m)
      unfold keptPlace
      rw [Nat.mul_assoc, ← Nat.pow_add, Nat.add_sub_cancel' hlog]
    have hexp : ((Nat.log 10 m : Int) - 8) = 0 + (Nat.log 10 m - 8 : Nat) := by omega
    rw [hdigits, hexp, convertDecimal_shift]
    rfl

/-- The rounded integer converts without a range error. -/
theorem accepted_convertDecimal {negative : Bool} {m : Nat} (hpos : 0 < m) (hm : m ≤ 2 ^ 53) :
    accepted (some (convertDecimal negative m 0 [])) = some (ofRatio negative m 1) := by
  obtain ⟨hfinite, hnormal, -⟩ := magnitudeCode_of_le hpos hm
  have hrange : rangeError m 1 = false := by
    unfold rangeError
    simp only [Nat.not_le.mpr hfinite, Nat.not_lt.mpr hnormal, decide_false, Bool.false_and,
      Bool.or_false]
  simp [accepted, convertDecimal, powerRatio, hrange]

/-- A number that is not zero is not rounded to zero. -/
theorem roundToNine_pos {m : Nat} (hm : 0 < m) : 0 < roundToNine m := by
  refine Nat.mul_pos (le_roundHalfEven (keptPlace_pos m) ?_) (keptPlace_pos m)
  rw [Nat.one_mul]
  exact le_trans (Nat.pow_le_pow_right (by decide) (Nat.sub_le _ _))
    (Nat.pow_log_le_self 10 hm.ne')

/-- Integers up to `2⁵³` are finite doubles. -/
theorem ofInt_finite {n : Int} (hn : n.natAbs ≤ 2 ^ 53) :
    (ofInt n).isNan = false ∧ (ofInt n).isInf = false := by
  have hcode := (quanta_ofInt hn).2.1
  have hexp : (ofInt n).exponent.val ≠ 2047 := by
    intro h
    unfold code infinityCode at hcode
    omega
  simp [isNan, isInf, hexp]

/-- Rounding to nine digits with the sign of the integer. -/
def roundInt (n : Int) : Int := if n < 0 then -(roundToNine n.natAbs) else roundToNine n.natAbs

/-- **What returns from the text of an integer** is the integer rounded to nine
significant digits. -/
theorem parseDouble_formatDouble_ofInt {n : Int} (hn : n.natAbs ≤ 2 ^ 53) :
    parseDouble (formatDouble (ofInt n)) = some (ofInt (roundInt n)) := by
  obtain ⟨hquanta, -, hsign⟩ := quanta_ofInt hn
  obtain ⟨hnan, hinf⟩ := ofInt_finite hn
  rw [parseDouble_formatDouble]
  rcases Nat.eq_zero_or_pos n.natAbs with hz | hpos
  · have hzero : n = 0 := Int.natAbs_eq_zero.mp hz
    subst hzero
    decide +kernel
  · have hne : (ofInt n).quanta ≠ 0 := by
      rw [hquanta]
      exact (Nat.mul_pos hpos quantaPerUnit_pos).ne'
    unfold formatDouble
    rw [strtod_formatGeneral (by decide) hnan hinf hne, hquanta, convertDecimal_ofNat _ hpos,
      accepted_convertDecimal (roundToNine_pos hpos) (roundToNine_le hn), hsign]
    have habs : (roundInt n).natAbs = roundToNine n.natAbs := by
      unfold roundInt
      split_ifs <;> simp
    have hneg : roundInt n < 0 ↔ n < 0 := by
      have := roundToNine_pos hpos
      unfold roundInt
      split_ifs <;> omega
    unfold ofInt
    rw [habs, decide_eq_decide.mpr hneg]

/-- At most nine significant digits: the digits after the ninth are zero. -/
def NineDigits (n : Int) : Prop := keptPlace n.natAbs ∣ n.natAbs

instance (n : Int) : Decidable (NineDigits n) :=
  inferInstanceAs (Decidable (_ ∣ _))

/-- An integer is kept exactly when nine digits write it. -/
theorem roundInt_eq_iff (n : Int) : roundInt n = n ↔ NineDigits n := by
  unfold NineDigits
  rw [← roundHalfEven_mul_eq_iff (keptPlace_pos n.natAbs)]
  unfold roundInt roundToNine
  split_ifs <;> omega

/-- **The exact round trip.**  An integer up to `2⁵³` comes back from its text
unchanged exactly when it has at most nine significant digits. -/
theorem parseDouble_formatDouble_ofInt_eq_iff {n : Int} (hn : n.natAbs ≤ 2 ^ 53) :
    parseDouble (formatDouble (ofInt n)) = some (ofInt n) ↔ NineDigits n := by
  have hround : (roundInt n).natAbs ≤ 2 ^ 53 := by
    have hle := roundToNine_le hn
    unfold roundInt
    split_ifs <;> omega
  rw [parseDouble_formatDouble_ofInt hn, Option.some.injEq, ← roundInt_eq_iff]
  constructor
  · intro h
    exact ofInt_injective hround hn h
  · intro h
    rw [h]

end Nshmqtt
