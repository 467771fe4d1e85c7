import Mathlib.Algebra.Order.Ring.Nat
import Mathlib.Data.Nat.Log
import Mathlib.Tactic.Linarith
import Mathlib.Tactic.Ring

/-!
# Binary64 numbers in exact arithmetic

A double is its three bit fields.  A finite magnitude is an integer multiple of
the least positive subnormal `2⁻¹⁰⁷⁴`; it is kept as that multiple (its
*quanta*), so that rounding and comparison are arithmetic of natural numbers.

A ratio `num / den` is rounded to the nearest double, ties to even.  The result
is built as a *code*, the exponent and fraction fields read as one number: a
carry out of the fraction then moves into the exponent by itself.
-/

/-- The nearest natural number to `num / den`, ties to even. -/
def roundHalfEven (num den : Nat) : Nat :=
  if 2 * (num % den) < den then num / den
  else if den < 2 * (num % den) then num / den + 1
  else num / den + num / den % 2

/-- Rounding a ratio does not depend on its common factors. -/
theorem roundHalfEven_mul_left (num den : Nat) {c : Nat} (hc : 0 < c) :
    roundHalfEven (c * num) (c * den) = roundHalfEven num den := by
  have hlt : ∀ a b : Nat, 2 * (c * a) < c * b ↔ 2 * a < b := by
    intro a b
    rw [show 2 * (c * a) = c * (2 * a) by ring]
    exact Nat.mul_lt_mul_left hc
  have hgt : ∀ a b : Nat, c * b < 2 * (c * a) ↔ b < 2 * a := by
    intro a b
    rw [show 2 * (c * a) = c * (2 * a) by ring]
    exact Nat.mul_lt_mul_left hc
  unfold roundHalfEven
  simp only [Nat.mul_mod_mul_left, Nat.mul_div_mul_left _ _ hc, hlt, hgt]

/-- Equal ratios round alike. -/
theorem roundHalfEven_congr {a b c d : Nat} (hb : 0 < b) (hd : 0 < d)
    (h : a * d = c * b) : roundHalfEven a b = roundHalfEven c d := by
  calc roundHalfEven a b
      = roundHalfEven (d * a) (d * b) := (roundHalfEven_mul_left a b hd).symm
    _ = roundHalfEven (b * c) (b * d) := by
        rw [Nat.mul_comm d a, h, Nat.mul_comm c b, Nat.mul_comm d b]
    _ = roundHalfEven c d := roundHalfEven_mul_left c d hb

theorem roundHalfEven_mul_right (q : Nat) {den : Nat} (hden : 0 < den) :
    roundHalfEven (q * den) den = q := by
  simp [roundHalfEven, hden, Nat.mul_div_cancel q hden]

/-- Rounding does not go below a whole number that is not above the quotient. -/
theorem le_roundHalfEven {k num den : Nat} (hden : 0 < den) (h : k * den ≤ num) :
    k ≤ roundHalfEven num den := by
  have hq : k ≤ num / den := (Nat.le_div_iff_mul_le hden).mpr h
  unfold roundHalfEven
  split_ifs <;> omega

theorem roundHalfEven_le {k num den : Nat} (hden : 0 < den) (h : num ≤ k * den) :
    roundHalfEven num den ≤ k := by
  have hq : num / den ≤ k := Nat.div_le_of_le_mul (by rw [Nat.mul_comm]; exact h)
  have hsplit := Nat.div_add_mod num den
  unfold roundHalfEven
  rcases Nat.lt_or_ge (num / den) k with hlt | hge
  · split_ifs <;> omega
  · have hqk : num / den = k := by omega
    have hr : num % den = 0 := by
      rw [hqk, Nat.mul_comm] at hsplit
      omega
    simp [hr, hden, hqk]

/-- Below the middle the rounding goes down. -/
theorem roundHalfEven_le_of_lt_half {k num den : Nat} (h : 2 * num < (2 * k + 1) * den) :
    roundHalfEven num den ≤ k := by
  have hsplit := Nat.div_add_mod num den
  have hq : num / den ≤ k := by
    by_contra hgt
    have hmul : (k + 1) * den ≤ num / den * den := Nat.mul_le_mul_right den (by omega)
    have hle := Nat.div_mul_le_self num den
    nlinarith
  unfold roundHalfEven
  rcases Nat.lt_or_ge (num / den) k with hlt | hge
  · split_ifs <;> omega
  · have hqk : num / den = k := by omega
    rw [hqk] at hsplit
    have hr : 2 * (num % den) < den := by nlinarith
    rw [if_pos hr, hqk]

/-- From the middle on the rounding goes up to an even number. -/
theorem le_roundHalfEven_of_half {k num den : Nat} (hden : 0 < den) (heven : k % 2 = 0)
    (h : 2 * k * den ≤ 2 * num + den) : k ≤ roundHalfEven num den := by
  have hsplit := Nat.div_add_mod num den
  have hmod := Nat.mod_lt num hden
  rcases Nat.lt_or_ge (num / den) k with hlt | hge
  · have hqk : num / den + 1 = k := by
      by_contra hne
      have hmul : (num / den + 2) * den ≤ k * den := Nat.mul_le_mul_right den (by omega)
      nlinarith
    have hr : den ≤ 2 * (num % den) := by
      rw [← hqk] at h
      nlinarith
    unfold roundHalfEven
    split_ifs <;> omega
  · unfold roundHalfEven
    split_ifs <;> omega

/-- The rounded multiple is exact only on a multiple. -/
theorem roundHalfEven_mul_eq_iff {num den : Nat} (hden : 0 < den) :
    roundHalfEven num den * den = num ↔ den ∣ num := by
  constructor
  · intro h
    exact ⟨_, by rw [Nat.mul_comm]; exact h.symm⟩
  · intro h
    obtain ⟨q, rfl⟩ := h
    rw [Nat.mul_comm den q, roundHalfEven_mul_right q hden]

/-- The bit fields of a binary64 number. -/
structure Binary64 where
  negative : Bool
  exponent : Fin 2048
  fraction : Fin (2 ^ 52)
deriving DecidableEq

namespace Binary64

/-- The least positive subnormal is `2 ^ (-quantumExponent)`. -/
def quantumExponent : Nat := 1074

/-- Quanta in one unit. -/
def quantaPerUnit : Nat := 2 ^ quantumExponent

theorem quantaPerUnit_pos : 0 < quantaPerUnit := by
  unfold quantaPerUnit
  exact Nat.two_pow_pos _

/-- Quanta that the shift of a number below two contributes. -/
def shiftBase : Nat := 1022

/-- The quanta of a natural number, with the bits of the significand apart. -/
theorem mul_quantaPerUnit (n : Nat) : n * quantaPerUnit = n * 2 ^ 52 * 2 ^ shiftBase := by
  have hexp : quantumExponent = 52 + shiftBase := rfl
  unfold quantaPerUnit
  rw [hexp, Nat.pow_add, Nat.mul_assoc]

attribute [irreducible] quantumExponent quantaPerUnit

/-- Code of infinity: the first code no finite magnitude has. -/
def infinityCode : Nat := 2047 * 2 ^ 52

/-- Magnitude with exponent and fraction fields read as one number. -/
def code (x : Binary64) : Nat := x.exponent.val * 2 ^ 52 + x.fraction.val

/-- The number with the given sign and code. -/
def ofCode (negative : Bool) (code : Nat) : Binary64 where
  negative := negative
  exponent := ⟨code / 2 ^ 52 % 2048, Nat.mod_lt _ (by decide)⟩
  fraction := ⟨code % 2 ^ 52, Nat.mod_lt _ (Nat.two_pow_pos 52)⟩

/-- Quanta of the finite magnitude with the given code. -/
def quantaOfCode (code : Nat) : Nat :=
  if code / 2 ^ 52 = 0 then code % 2 ^ 52
  else (2 ^ 52 + code % 2 ^ 52) * 2 ^ (code / 2 ^ 52 - 1)

/-- Quanta of a finite magnitude. -/
def quanta (x : Binary64) : Nat := quantaOfCode x.code

def isNan (x : Binary64) : Bool := x.exponent.val == 2047 && x.fraction.val != 0

def isInf (x : Binary64) : Bool := x.exponent.val == 2047 && x.fraction.val == 0

def infinity (negative : Bool) : Binary64 := ofCode negative infinityCode

def nan (negative : Bool) : Binary64 := ofCode negative (infinityCode + 2 ^ 51)

/-- The shift of the greatest numbers. -/
def topShift : Nat := 2045

/-- The greatest finite number. -/
def maxQuanta : Nat := (2 ^ 53 - 1) * 2 ^ topShift

attribute [irreducible] topShift maxQuanta

theorem topShift_eq : topShift = 2045 := by
  unfold topShift
  rfl

/-- The greatest finite double has 53 set bits. -/
theorem maxQuanta_eq : maxQuanta = (2 ^ 53 - 1) * 2 ^ topShift := by
  unfold maxQuanta
  rfl

theorem maxQuanta_lt : maxQuanta < 2 ^ (53 + topShift) := by
  rw [maxQuanta_eq, Nat.pow_add]
  exact Nat.mul_lt_mul_of_pos_right (by omega) (Nat.two_pow_pos _)

/-- No finite double exceeds `maxQuanta`. -/
theorem quanta_le {x : Binary64} (hnan : x.isNan = false) (hinf : x.isInf = false) :
    x.quanta ≤ maxQuanta := by
  have hfraction := x.fraction.isLt
  have hexponent : x.exponent.val < 2047 := by
    have hbound := x.exponent.isLt
    have hspecial : x.exponent.val ≠ 2047 := by
      intro heq
      simp [isNan, isInf, heq] at hnan hinf
      exact hinf hnan
    omega
  have hdiv : x.code / 2 ^ 52 = x.exponent.val := by
    unfold code
    omega
  have hmod : x.code % 2 ^ 52 < 2 ^ 52 := Nat.mod_lt _ (Nat.two_pow_pos 52)
  have htop := topShift_eq
  unfold quanta quantaOfCode
  rw [hdiv, maxQuanta_eq]
  split_ifs with hzero
  · have hsubnormal : x.code % 2 ^ 52 ≤ 2 ^ 53 - 1 := by omega
    exact hsubnormal.trans (Nat.le_mul_of_pos_right _ (Nat.two_pow_pos _))
  · apply Nat.mul_le_mul
    · omega
    · apply Nat.pow_le_pow_right (by decide)
      omega

/-- A finite number is below `2 ^ 1024`. -/
theorem quanta_lt {x : Binary64} (hnan : x.isNan = false) (hinf : x.isInf = false) :
    x.quanta < 2 ^ 1024 * quantaPerUnit := by
  have hunit : quantaPerUnit = 2 ^ 1074 := by
    unfold quantaPerUnit quantumExponent
    rfl
  have hexponent : 53 + topShift = 1024 + 1074 := by
    rw [topShift_eq]
  rw [hunit, ← Nat.pow_add, ← hexponent]
  exact (quanta_le hnan hinf).trans_lt maxQuanta_lt

/-- Code of the magnitude nearest to `num / den`, not bounded above.  Up to 53
significant bits all quanta count; beyond, the last `shift` bits are rounded. -/
def magnitudeCode (num den : Nat) : Nat :=
  let quanta := num * quantaPerUnit
  let shift := Nat.log2 (quanta / den) - 52
  shift * 2 ^ 52 + roundHalfEven quanta (den * 2 ^ shift)

/-- Correctly rounded `num / den` with the given sign. -/
def ofRatio (negative : Bool) (num den : Nat) : Binary64 :=
  if infinityCode ≤ magnitudeCode num den then infinity negative
  else ofCode negative (magnitudeCode num den)

/-- Whether the conversion of `num / den` reports a range error: on overflow,
and on a subnormal (or zero) result that is not exact.  What counts is the rounded result;
glibc also reports some values that round up to the least normal number. -/
def rangeError (num den : Nat) : Bool :=
  decide (infinityCode ≤ magnitudeCode num den) ||
    (decide (magnitudeCode num den < 2 ^ 52) && num * quantaPerUnit % den != 0)

/-- The double an integer converts to. -/
def ofInt (n : Int) : Binary64 := ofRatio (decide (n < 0)) n.natAbs 1

/-- The code depends on the quotient alone. -/
theorem magnitudeCode_congr {a b c d : Nat} (hb : 0 < b) (hd : 0 < d)
    (h : a * d = c * b) : magnitudeCode a b = magnitudeCode c d := by
  have hq : a * quantaPerUnit * d = c * quantaPerUnit * b := by
    rw [Nat.mul_right_comm, h, Nat.mul_right_comm]
  have hdiv : a * quantaPerUnit / b = c * quantaPerUnit / d := by
    rw [← Nat.mul_div_mul_right _ b hd, hq, Nat.mul_comm b d,
      Nat.mul_div_mul_right _ d hb]
  unfold magnitudeCode
  simp only [hdiv]
  rw [roundHalfEven_congr (c := c * quantaPerUnit)
    (d := d * 2 ^ (Nat.log2 (c * quantaPerUnit / d) - 52))
    (Nat.mul_pos hb (Nat.two_pow_pos _)) (Nat.mul_pos hd (Nat.two_pow_pos _))
    (by rw [← Nat.mul_assoc, hq, Nat.mul_assoc])]

theorem ofRatio_congr (negative : Bool) {a b c d : Nat} (hb : 0 < b) (hd : 0 < d)
    (h : a * d = c * b) : ofRatio negative a b = ofRatio negative c d := by
  unfold ofRatio
  rw [magnitudeCode_congr hb hd h]

theorem rangeError_congr {a b c d : Nat} (hb : 0 < b) (hd : 0 < d)
    (h : a * d = c * b) : rangeError a b = rangeError c d := by
  have hdvd : a * quantaPerUnit % b = 0 ↔ c * quantaPerUnit % d = 0 := by
    rw [← Nat.dvd_iff_mod_eq_zero, ← Nat.dvd_iff_mod_eq_zero,
      ← Nat.mul_dvd_mul_iff_right hd, ← Nat.mul_dvd_mul_iff_right (a := d) hb,
      Nat.mul_right_comm, h, Nat.mul_right_comm, Nat.mul_comm b d]
  have hexact : (a * quantaPerUnit % b != 0) = (c * quantaPerUnit % d != 0) := by
    rw [Bool.eq_iff_iff, bne_iff_ne, bne_iff_ne, ne_eq, ne_eq, hdvd]
  unfold rangeError
  rw [magnitudeCode_congr hb hd h, hexact]

/-- **Integers up to `2⁵³` are exact.**  Their code is finite and has exactly
the integer's quanta. -/
theorem magnitudeCode_of_le {n : Nat} (hpos : 0 < n) (hn : n ≤ 2 ^ 53) :
    magnitudeCode n 1 < infinityCode ∧ 2 ^ 52 ≤ magnitudeCode n 1 ∧
      quantaOfCode (magnitudeCode n 1) = n * quantaPerUnit := by
  have hlo := Nat.log2_self_le hpos.ne'
  have hhi := Nat.lt_log2_self (n := n)
  have hlog53 : n.log2 ≤ 53 := by
    by_contra hgt
    have h54 : 2 ^ 54 ≤ 2 ^ n.log2 := Nat.pow_le_pow_right (by decide) (by omega)
    omega
  have hlog : Nat.log2 (n * quantaPerUnit) = n.log2 + (52 + shiftBase) := by
    rw [Nat.log2_eq_iff (Nat.mul_pos hpos quantaPerUnit_pos).ne', mul_quantaPerUnit,
      Nat.mul_assoc, ← Nat.pow_add]
    constructor
    · rw [Nat.pow_add 2 n.log2]
      exact Nat.mul_le_mul_right _ hlo
    · rw [Nat.add_right_comm, Nat.pow_add 2 (n.log2 + 1)]
      exact Nat.mul_lt_mul_of_pos_right hhi (Nat.two_pow_pos _)
  obtain ⟨m, hm⟩ : ∃ m, n * 2 ^ 52 = m * 2 ^ n.log2 := by
    rcases Nat.lt_or_ge n.log2 53 with hlt | hge
    · refine ⟨n * 2 ^ (52 - n.log2), ?_⟩
      rw [Nat.mul_assoc, ← Nat.pow_add, Nat.sub_add_cancel (by omega)]
    · have h53 : n.log2 = 53 := by omega
      rw [h53] at hlo ⊢
      have hn53 : n = 2 ^ 53 := by omega
      exact ⟨2 ^ 52, by rw [hn53, Nat.mul_comm]⟩
  have hmlo : 2 ^ 52 ≤ m := by
    by_contra hlt
    have hlt' : m * 2 ^ n.log2 < 2 ^ 52 * 2 ^ n.log2 :=
      Nat.mul_lt_mul_of_pos_right (by omega) (Nat.two_pow_pos _)
    rw [← hm, Nat.mul_comm (2 ^ 52)] at hlt'
    exact absurd (Nat.lt_of_mul_lt_mul_right hlt') (by omega)
  have hmhi : m < 2 ^ 53 := by
    by_contra hge
    have hge' : 2 ^ 53 * 2 ^ n.log2 ≤ m * 2 ^ n.log2 :=
      Nat.mul_le_mul_right _ (by omega)
    rw [← hm, show 2 ^ 53 * 2 ^ n.log2 = 2 ^ (n.log2 + 1) * 2 ^ 52 by
      rw [Nat.pow_succ]; ring] at hge'
    exact absurd (Nat.le_of_mul_le_mul_right hge' (Nat.two_pow_pos 52)) (by omega)
  have hsplit : n * quantaPerUnit = m * 2 ^ (n.log2 + shiftBase) := by
    rw [mul_quantaPerUnit, hm, Nat.pow_add, Nat.mul_assoc]
  have hround : roundHalfEven (n * quantaPerUnit) (2 ^ (n.log2 + shiftBase)) = m := by
    rw [hsplit]
    exact roundHalfEven_mul_right m (Nat.two_pow_pos _)
  have hcode : magnitudeCode n 1 = (n.log2 + shiftBase) * 2 ^ 52 + m := by
    unfold magnitudeCode
    simp only [Nat.div_one, Nat.one_mul, hlog]
    rw [show n.log2 + (52 + shiftBase) - 52 = n.log2 + shiftBase by omega, hround]
  have hbase : shiftBase = 1022 := rfl
  have hdiv : magnitudeCode n 1 / 2 ^ 52 = n.log2 + shiftBase + 1 := by
    rw [hcode]; omega
  have hmod : 2 ^ 52 + magnitudeCode n 1 % 2 ^ 52 = m := by
    rw [hcode]; omega
  refine ⟨by rw [hcode]; unfold infinityCode; omega, by rw [hcode]; omega, ?_⟩
  rw [quantaOfCode, if_neg (by omega), hmod, hdiv, hsplit, Nat.add_sub_cancel]

/-- From the least normal number on the code is that of a normal number. -/
theorem le_magnitudeCode {num den : Nat} (hden : 0 < den)
    (h : 2 ^ 52 * den ≤ num * quantaPerUnit) : 2 ^ 52 ≤ magnitudeCode num den := by
  have hquot : 2 ^ 52 ≤ num * quantaPerUnit / den := (Nat.le_div_iff_mul_le hden).mpr h
  have hlog : 52 ≤ Nat.log2 (num * quantaPerUnit / den) := (Nat.le_log2 (by omega)).mpr hquot
  have hround : 2 ^ 52 ≤ roundHalfEven (num * quantaPerUnit)
      (den * 2 ^ (Nat.log2 (num * quantaPerUnit / den) - 52)) := by
    apply le_roundHalfEven (Nat.mul_pos hden (Nat.two_pow_pos _))
    rw [Nat.mul_left_comm, ← Nat.pow_add, Nat.add_sub_cancel' hlog]
    have hself := Nat.log2_self_le (n := num * quantaPerUnit / den) (by omega)
    calc den * 2 ^ Nat.log2 (num * quantaPerUnit / den)
        ≤ den * (num * quantaPerUnit / den) := Nat.mul_le_mul_left den hself
      _ ≤ num * quantaPerUnit := Nat.mul_div_le _ _
  unfold magnitudeCode
  simp only
  omega

/-- Below it the code is that of a subnormal number. -/
theorem magnitudeCode_lt {num den : Nat} (hden : 0 < den)
    (h : num * quantaPerUnit ≤ (2 ^ 52 - 1) * den) : magnitudeCode num den < 2 ^ 52 := by
  have hquot : num * quantaPerUnit / den < 2 ^ 52 := by
    rw [Nat.div_lt_iff_lt_mul hden]
    have hlt : (2 ^ 52 - 1) * den < 2 ^ 52 * den := Nat.mul_lt_mul_of_pos_right (by omega) hden
    omega
  have hshift : Nat.log2 (num * quantaPerUnit / den) - 52 = 0 := by
    by_cases hzero : num * quantaPerUnit / den = 0
    · rw [hzero, Nat.log2_zero]
    · have hlog : Nat.log2 (num * quantaPerUnit / den) < 52 := (Nat.log2_lt hzero).mpr hquot
      omega
  have hround := roundHalfEven_le hden h
  unfold magnitudeCode
  simp only [hshift, Nat.zero_mul, Nat.zero_add, Nat.pow_zero, Nat.mul_one]
  omega

/-- **No overflow** up to the greatest finite number. -/
theorem magnitudeCode_lt_infinityCode {num den : Nat} (hden : 0 < den)
    (h : num * quantaPerUnit ≤ maxQuanta * den) : magnitudeCode num den < infinityCode := by
  have htop := topShift_eq
  set quot := num * quantaPerUnit / den with hquotDef
  have hquot : quot ≤ maxQuanta := by
    apply Nat.div_le_of_le_mul
    rw [Nat.mul_comm den]
    exact h
  have hlog : Nat.log2 quot - 52 ≤ topShift := by
    by_cases hzero : quot = 0
    · rw [hzero, Nat.log2_zero]
      omega
    · have := (Nat.log2_lt hzero).mpr (hquot.trans_lt maxQuanta_lt)
      omega
  have hround : roundHalfEven (num * quantaPerUnit) (den * 2 ^ (Nat.log2 quot - 52)) ≤ 2 ^ 53 := by
    apply roundHalfEven_le (Nat.mul_pos hden (Nat.two_pow_pos _))
    have hself := Nat.lt_log2_self (n := quot)
    have hnum : num * quantaPerUnit < den * (quot + 1) := Nat.lt_mul_div_succ _ hden
    calc num * quantaPerUnit ≤ den * (quot + 1) := hnum.le
      _ ≤ den * 2 ^ (53 + (Nat.log2 quot - 52)) := by
          apply Nat.mul_le_mul_left
          exact Nat.succ_le_of_lt
            (hself.trans_le (Nat.pow_le_pow_right (by decide) (by omega)))
      _ = 2 ^ 53 * (den * 2 ^ (Nat.log2 quot - 52)) := by
          rw [Nat.pow_add, Nat.mul_left_comm]
  have hcode : magnitudeCode num den = (Nat.log2 quot - 52) * 2 ^ 52 +
      roundHalfEven (num * quantaPerUnit) (den * 2 ^ (Nat.log2 quot - 52)) := rfl
  rw [hcode, infinityCode]
  rcases Nat.lt_or_ge (Nat.log2 quot - 52) topShift with hlt | hge
  · omega
  · have hshift : Nat.log2 quot - 52 = topShift := by omega
    rw [hshift] at hround ⊢
    have hlast : roundHalfEven (num * quantaPerUnit) (den * 2 ^ topShift) ≤ 2 ^ 53 - 1 := by
      apply roundHalfEven_le (Nat.mul_pos hden (Nat.two_pow_pos _))
      rw [Nat.mul_left_comm, Nat.mul_comm den, ← maxQuanta_eq]
      exact h
    omega

theorem magnitudeCode_zero {den : Nat} : magnitudeCode 0 den = 0 := by
  simp [magnitudeCode, roundHalfEven, Nat.zero_div, Nat.log2_zero]

theorem quantaOfCode_zero : quantaOfCode 0 = 0 := by
  simp [quantaOfCode]

theorem infinityCode_pos : 0 < infinityCode := by
  unfold infinityCode
  omega

/-- A finite code is the code of its double. -/
theorem code_ofCode (negative : Bool) {c : Nat} (hc : c < infinityCode) :
    (ofCode negative c).code = c := by
  unfold infinityCode at hc
  simp only [ofCode, code]
  omega

/-- Below the code of infinity the quotient is rounded to a finite double. -/
theorem ofRatio_of_lt (negative : Bool) {num den : Nat}
    (h : magnitudeCode num den < infinityCode) :
    ofRatio negative num den = ofCode negative (magnitudeCode num den) := by
  rw [ofRatio, if_neg (Nat.not_le.mpr h)]

/-- An integer of magnitude at most `2⁵³` converts exactly. -/
theorem quanta_ofInt {n : Int} (hn : n.natAbs ≤ 2 ^ 53) :
    (ofInt n).quanta = n.natAbs * quantaPerUnit ∧
      (ofInt n).code < infinityCode ∧ (ofInt n).negative = decide (n < 0) := by
  have hexact : magnitudeCode n.natAbs 1 < infinityCode ∧
      quantaOfCode (magnitudeCode n.natAbs 1) = n.natAbs * quantaPerUnit := by
    rcases Nat.eq_zero_or_pos n.natAbs with hz | hpos
    · rw [hz, magnitudeCode_zero, quantaOfCode_zero, Nat.zero_mul]
      exact ⟨infinityCode_pos, rfl⟩
    · exact ⟨(magnitudeCode_of_le hpos hn).1, (magnitudeCode_of_le hpos hn).2.2⟩
  have hof : ofInt n = ofCode (decide (n < 0)) (magnitudeCode n.natAbs 1) := by
    rw [ofInt, ofRatio_of_lt _ hexact.1]
  rw [hof, quanta, code_ofCode _ hexact.1]
  exact ⟨hexact.2, hexact.1, rfl⟩

/-- Conversion is injective on the exactly represented integers. -/
theorem ofInt_injective {n k : Int} (hn : n.natAbs ≤ 2 ^ 53) (hk : k.natAbs ≤ 2 ^ 53)
    (h : ofInt n = ofInt k) : n = k := by
  obtain ⟨hqn, -, hsn⟩ := quanta_ofInt hn
  obtain ⟨hqk, -, hsk⟩ := quanta_ofInt hk
  rw [h, hqk] at hqn
  rw [h, hsk] at hsn
  have habs := Nat.eq_of_mul_eq_mul_right quantaPerUnit_pos hqn
  have hsign : k < 0 ↔ n < 0 := by simpa using hsn
  omega

end Binary64
