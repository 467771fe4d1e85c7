import Nshmqtt.NumberGrammar
import Nshmqtt.StableText

/-!
# The floats of a metrics text

A reader of the Prometheus format takes the numbers that Go's `ParseFloat` takes, except those
with a `p` or an underscore.  That leaves an infinity or a decimal behind an optional sign, and
`nan` without a sign.  A decimal that is too big for a double is an error.

* `parseFloat_sound` : these are numbers for `strtod` as well, though not all of them;
* `parseFloat_decimalText`, `isSome_parseFloat_formatGeneral` : the texts of counters and of
  doubles are floats, except for `-nan`.
-/

namespace DecimalText

open ByteStrings Binary64

/-- The float of a whole word. -/
def parseFloat (s : Bytes) : Option Binary64 :=
  if toLower s = ascii "nan" then some (nan false)
  else
    let signed := scanSign s
    if toLower signed.2 = ascii "inf" ∨ toLower signed.2 = ascii "infinity" then
      some (infinity signed.1)
    else
      (scanMantissa isdigit signed.2).bind fun m =>
        let converted := convertScanned signed.1 10 10 1 101 m.1 m.2.1 m.2.2
        if converted.rest = [] ∧ converted.value.isInf = false then some converted.value else none

/-- **What is read as a float** is a number of `strtod`. -/
theorem parseFloat_sound {s : Bytes} {x : Binary64} (h : parseFloat s = some x) : FloatText s := by
  obtain ⟨sign, hsign, hsplit⟩ := scanSign_sound s
  unfold parseFloat at h
  dsimp only at h
  split_ifs at h with hnan hinf
  · exact ⟨false, [], s, .absent, List.append_nil s ▸ .nan hnan .absent, rfl⟩
  · exact ⟨_, sign, _, hsign, .infinity hinf.symm, hsplit⟩
  · obtain ⟨⟨whole, fraction, rest⟩, hscan, hconvert⟩ := Option.bind_eq_some_iff.mp h
    split_ifs at hconvert with hend
    obtain ⟨mantissa, hmantissa, hbody⟩ := scanMantissa_sound hscan
    obtain ⟨exponent, hexponent, hrest⟩ := scanExponent_sound 101 rest
    have hnothing : (scanExponent 101 rest).2 = [] := hend.1
    rw [hnothing, List.append_nil] at hrest
    rw [← hrest] at hbody
    exact ⟨_, sign, mantissa ++ exponent, hsign, .decimal hmantissa hexponent, hbody ▸ hsplit⟩

example : (parseFloat (ascii ".5e1") = some (ofInt 5) ∧ (parseFloat (ascii "+Inf")).isSome) ∧
    ∀ word ∈ [ascii "-nan", ascii "0x1p3", ascii "1_0", ascii "1e999", ascii "one", []],
      (parseFloat word).isNone := by
  decide +kernel

/-- A float has no whitespace in it, and no end of a line. -/
theorem floatByte_of_parseFloat {s : Bytes} (h : (parseFloat s).isSome = true) :
    ∀ c ∈ s, DecimalText.floatByte c = true := by
  obtain ⟨x, hx⟩ := Option.isSome_iff_exists.mp h
  exact fun c hc => (parseFloat_sound hx).floatByte hc

/-- A decimal behind an optional sign is read to its end. -/
theorem parseFloat_signed (negative : Bool) {c : UInt8} {rest : Bytes} (hc : isdigit c = true)
    (hbytes : ∀ d ∈ c :: rest, numberByte d = true) {converted : Converted Binary64}
    (hscan : scanNumber negative (c :: rest) = some converted) (hend : converted.rest = [])
    (hfinite : converted.value.isInf = false) :
    parseFloat ((if negative then [minus] else []) ++ c :: rest) = some converted.value := by
  have hletters := fun d hd => tolower_of_numberByte d (hbytes d hd)
  have hsign : scanSign ((if negative then [minus] else []) ++ c :: rest) =
      (negative, c :: rest) := by
    have hplain : c ≠ minus ∧ c ≠ plus := forall_byte
      (p := fun c => isdigit c = true → c ≠ minus ∧ c ≠ plus) (by decide +kernel) c hc
    cases negative <;> simp [scanSign, hplain]
  have hword : ∀ word : Bytes, (105 ∈ word ∨ 110 ∈ word) → toLower (c :: rest) ≠ word := by
    intro word hletter heq
    rcases hletter with hi | hn
    · obtain ⟨d, hd, hlower⟩ := List.mem_map.mp (heq ▸ hi)
      exact (hletters d hd).1 hlower
    · obtain ⟨d, hd, hlower⟩ := List.mem_map.mp (heq ▸ hn)
      exact (hletters d hd).2.1 hlower
  have hnan : toLower ((if negative then [minus] else []) ++ c :: rest) ≠ ascii "nan" := by
    cases negative with
    | false => exact hword _ (by decide)
    | true =>
        intro heq
        exact absurd (List.cons.inj heq).1 (by decide)
  have hinf : ¬ (toLower (c :: rest) = ascii "inf" ∨ toLower (c :: rest) = ascii "infinity") :=
    not_or.mpr ⟨hword _ (by decide), hword _ (by decide)⟩
  rw [scanNumber_of_numberByte hbytes] at hscan
  obtain ⟨m, hm, rfl⟩ := Option.map_eq_some_iff.mp hscan
  rw [parseFloat, if_neg hnan, hsign]
  dsimp only
  rw [if_neg hinf, hm, Option.bind_some, if_pos ⟨hend, hfinite⟩]

/-- No quotient up to the greatest double is rounded to an infinity. -/
theorem isInf_ofRatio (negative : Bool) {num den : Nat} (hden : 0 < den)
    (h : num * quantaPerUnit ≤ maxQuanta * den) : (ofRatio negative num den).isInf = false := by
  have hcode := magnitudeCode_lt_infinityCode hden h
  rw [ofRatio_of_lt negative hcode]
  exact (isNan_ofCode negative hcode).2

/-- **Counters** are floats. -/
theorem parseFloat_decimalText {n : Nat} (hn : n < 2 ^ 64) :
    (parseFloat (decimalText n)).isSome = true := by
  have hscan : scanNumber false (decimalText n) =
      some (convertDecimal false (digitsValue 10 (decimalText n ++ [])) 0 []) := by
    have hpointed := @scanNumber_pointed false (decimalText n) [] [] [] 0
      (fun c hc => isdigit_of_mem_decimalText hc) (decimalText_ne_nil n) (List.forall_mem_nil _)
      headNot_nil (List.forall_mem_nil _) (scanExponent_nil 101)
    rwa [List.append_nil] at hpointed
  have hbytes : ∀ c ∈ decimalText n, numberByte c = true :=
    fun c hc => numberByte_of_isdigit (isdigit_of_mem_decimalText hc)
  have hbig : n * quantaPerUnit ≤ maxQuanta * 1 := by
    have hmax : 2 ^ 64 * quantaPerUnit ≤ maxQuanta * 1 := by decide +kernel
    exact (Nat.mul_le_mul_right _ hn.le).trans hmax
  have hfinite : (ofRatio false n 1).isInf = false := isInf_ofRatio false Nat.one_pos hbig
  cases htext : decimalText n with
  | nil => exact absurd htext (decimalText_ne_nil n)
  | cons c rest =>
      rw [List.append_nil, digitsValue_decimalText] at hscan
      rw [htext] at hbytes hscan
      have hc : isdigit c = true :=
        isdigit_of_mem_decimalText (n := n) (htext ▸ List.mem_cons_self)
      have hparse := parseFloat_signed false hc hbytes hscan rfl
        (by simpa [convertDecimal, powerRatio] using hfinite)
      rw [if_neg Bool.false_ne_true, List.nil_append] at hparse
      rw [hparse]
      rfl

/-- Everything but a negative NaN has a text that is a float. -/
def HasFloat (x : Binary64) : Prop := x.isNan = true → x.negative = false

instance (x : Binary64) : Decidable (HasFloat x) := inferInstanceAs (Decidable (_ → _))

theorem hasFloat_of_not_nan {x : Binary64} (h : x.isNan = false) : HasFloat x :=
  fun hnan => absurd (h.symm.trans hnan) Bool.false_ne_true

/-- The texts that do not depend on the magnitude. -/
theorem isSome_parseFloat_word (negative : Bool) :
    (parseFloat ((if negative then [minus] else []) ++ ascii "nan")).isSome = !negative ∧
      (parseFloat ((if negative then [minus] else []) ++ ascii "inf")).isSome = true ∧
      (parseFloat ((if negative then [minus] else []) ++ [zeroDigit])).isSome = true := by
  cases negative <;> decide +kernel

variable {precision : Nat}

/-- A finite number is read as the decimal its text was rounded to. -/
theorem isSome_parseFloat_finite (hp : 0 < precision) {x : Binary64} (hnan : x.isNan = false)
    (hinf : x.isInf = false) (hzero : x.quanta ≠ 0)
    (hmax : shownDecimal precision x.quanta quantaPerUnit * quantaPerUnit ≤
      maxQuanta * shownUnit precision) :
    (parseFloat (formatGeneral precision x)).isSome = true := by
  have hbig : quantaPerUnit ≤ x.quanta * 10 ^ decimalOffset :=
    le_trans quantaPerUnit_le (Nat.le_mul_of_pos_left _ (Nat.pos_of_ne_zero hzero))
  obtain ⟨hlo, hhi⟩ := scientific_bounds hp quantaPerUnit_pos hbig
  obtain ⟨c, rest, htext, hdigit⟩ := generalText_head precision
    (scientific precision x.quanta quantaPerUnit).1 (scientific precision x.quanta quantaPerUnit).2
  have hformat : formatGeneral precision x = (if x.negative then [minus] else []) ++ c :: rest := by
    rw [← htext]
    simp [formatGeneral, hnan, hinf, hzero]
  have hscan := scanNumber_generalText x.negative
    (scientific precision x.quanta quantaPerUnit).2 hp hlo hhi
  rw [htext, convertDecimal_scientific _ hp] at hscan
  have hbytes : ∀ d ∈ c :: rest, numberByte d = true :=
    fun d hd => numberByte_generalText (htext ▸ hd)
  rw [hformat, parseFloat_signed x.negative hdigit hbytes hscan rfl
    (isInf_ofRatio x.negative (shownUnit_pos precision) hmax)]
  rfl

/-- **Doubles** are floats, except for a NaN with a sign, when their rounding does not
overflow. -/
theorem isSome_parseFloat_formatGeneral (hp : 0 < precision) (x : Binary64)
    (hmax : x.isNan = false → x.isInf = false → x.quanta ≠ 0 →
      shownDecimal precision x.quanta quantaPerUnit * quantaPerUnit ≤
        maxQuanta * shownUnit precision) :
    (parseFloat (formatGeneral precision x)).isSome = true ↔ HasFloat x := by
  obtain ⟨hnanText, hinfText, hzeroText⟩ := isSome_parseFloat_word x.negative
  cases hnan : x.isNan with
  | true =>
      have hformat : formatGeneral precision x =
          (if x.negative then [minus] else []) ++ ascii "nan" := by
        simp [formatGeneral, hnan]
      rw [hformat, hnanText, HasFloat, hnan, Bool.not_eq_true']
      exact ⟨fun h _ => h, fun h => h rfl⟩
  | false =>
      refine iff_of_true ?_ (hasFloat_of_not_nan hnan)
      by_cases hinf : x.isInf = true
      · have hformat : formatGeneral precision x =
            (if x.negative then [minus] else []) ++ ascii "inf" := by
          simp [formatGeneral, hnan, hinf]
        rw [hformat, hinfText]
      by_cases hzero : x.quanta = 0
      · have hformat : formatGeneral precision x =
            (if x.negative then [minus] else []) ++ [zeroDigit] := by
          simp [formatGeneral, hnan, hinf, hzero]
        rw [hformat, hzeroText]
      rw [Bool.not_eq_true] at hinf
      exact isSome_parseFloat_finite hp hnan hinf hzero (hmax hnan hinf hzero)

end DecimalText
