import Nshmqtt.StateRoundTrip

/-!
# Which values survive a restart

A value is saved with nine significant digits and read back by `strtod`, which reports a
range error on overflow and on a subnormal result that is not exact.  Nine digits never
carry the greatest finite number over the edge.  At the other end they are never exact
for a subnormal number, so every number that is rounded below the least normal one makes
a text that is refused.

* `shownDecimal_le` and its companions place the nine digits at both ends of the range;
* `Reloadable.isSome_reread_iff` says which values are read back;
* `StateStore.reloads_iff` says when a saved store can be loaded again.
-/

namespace Nshmqtt

open ByteStrings DecimalText Binary64

/-- `2.225073855e-308` in units of `10 ^ (-decimalOffset)`. -/
def leastShown : Nat := 2225073855 * 10 ^ 7

/-- Zero, infinity, no number, or at least `2.225073855e-308` in magnitude: what is
rounded to a normal number or to nothing at all. -/
def Reloadable (v : Double) : Prop :=
  v.isNan = true ∨ v.isInf = true ∨ v.quanta = 0 ∨
    leastShown * quantaPerUnit ≤ v.quanta * 10 ^ decimalOffset

instance (v : Double) : Decidable (Reloadable v) :=
  inferInstanceAs (Decidable (_ ∨ _ ∨ _ ∨ _))

section Bound

variable {scaled unit : Nat}

/-- The least value shown in full is in its decade. -/
theorem decade_of_le (h : leastShown * unit ≤ scaled) : unit * 10 ^ 16 ≤ scaled := by
  unfold leastShown at h
  omega

theorem decade_of_lt (h : scaled < leastShown * unit) : scaled < unit * 10 ^ 17 := by
  unfold leastShown at h
  omega

/-- From the least value shown in full on, rounding gives at least its nine digits. -/
theorem half_of_le (h : leastShown * unit ≤ scaled) :
    2 * 222507386 * (unit * 10 ^ 16) ≤ 2 * (scaled * 10 ^ (9 - 1)) + unit * 10 ^ 16 := by
  unfold leastShown at h
  omega

theorem half_of_lt (h : scaled < leastShown * unit) :
    2 * (scaled * 10 ^ (9 - 1)) < (2 * 222507385 + 1) * (unit * 10 ^ 16) := by
  unfold leastShown at h
  omega

end Bound

section Digits

variable {q : Nat}

variable (hq : 0 < q)

include hq

theorem quanta_big : quantaPerUnit ≤ q * 10 ^ decimalOffset :=
  quantaPerUnit_le.trans (Nat.le_mul_of_pos_left _ hq)

theorem nine_bounds : 10 ^ 8 ≤ roundedDigits 9 q quantaPerUnit ∧
    roundedDigits 9 q quantaPerUnit ≤ 10 ^ 9 :=
  roundedDigits_bounds (Nat.succ_pos 8) quantaPerUnit_pos (quanta_big hq)

/-- A number in a decade has its place. -/
theorem le_place {k : Nat} (h : quantaPerUnit * 10 ^ k ≤ q * 10 ^ decimalOffset) :
    k ≤ leadingPlace q quantaPerUnit := by
  by_contra hlt
  have hpow : 10 ^ (leadingPlace q quantaPerUnit + 1) ≤ 10 ^ k :=
    Nat.pow_le_pow_right (by decide) (by omega)
  have hmul := Nat.mul_le_mul_left quantaPerUnit hpow
  have hspec := leadingPlace_spec quantaPerUnit_pos (quanta_big hq)
  exact absurd (hspec.2.trans_le (hmul.trans h)) (lt_irrefl _)

/-- A small value has a small leading place. -/
theorem place_lt {k : Nat} (h : q * 10 ^ decimalOffset < quantaPerUnit * 10 ^ k) :
    leadingPlace q quantaPerUnit < k := by
  by_contra hge
  have hpow : 10 ^ k ≤ 10 ^ leadingPlace q quantaPerUnit :=
    Nat.pow_le_pow_right (by decide) (by omega)
  have hmul := Nat.mul_le_mul_left quantaPerUnit hpow
  have hspec := leadingPlace_spec quantaPerUnit_pos (quanta_big hq)
  exact absurd (h.trans_le (hmul.trans hspec.1)) (lt_irrefl _)

/-- A number of a lower decade is at most the power of ten above it. -/
theorem shownDecimal_le_of_place {k : Nat} (h : leadingPlace q quantaPerUnit < k) :
    shownDecimal 9 q quantaPerUnit ≤ 10 ^ (8 + k) := by
  rw [shownDecimal]
  calc roundedDigits 9 q quantaPerUnit * 10 ^ leadingPlace q quantaPerUnit
      ≤ 10 ^ 9 * 10 ^ leadingPlace q quantaPerUnit :=
        Nat.mul_le_mul_right _ (nine_bounds hq).2
    _ = 10 ^ (9 + leadingPlace q quantaPerUnit) := (Nat.pow_add _ _ _).symm
    _ ≤ 10 ^ (8 + k) := Nat.pow_le_pow_right (by decide) (by omega)

/-- **From there on it rounds up**: the text says at least `2.22507386e-308`. -/
theorem le_shownDecimal (h : leastShown * quantaPerUnit ≤ q * 10 ^ decimalOffset) :
    222507386 * 10 ^ 16 ≤ shownDecimal 9 q quantaPerUnit := by
  have hplace : 16 ≤ leadingPlace q quantaPerUnit := le_place hq (decade_of_le h)
  rw [shownDecimal]
  by_cases heq : leadingPlace q quantaPerUnit = 16
  · rw [heq]
    apply Nat.mul_le_mul_right
    rw [roundedDigits, heq, mul_shownUnit]
    exact le_roundHalfEven_of_half (Nat.mul_pos quantaPerUnit_pos (Nat.pow_pos (by decide)))
      (by decide) (half_of_le h)
  · calc 222507386 * 10 ^ 16 ≤ 10 ^ 8 * 10 ^ 17 := by decide
      _ ≤ roundedDigits 9 q quantaPerUnit * 10 ^ leadingPlace q quantaPerUnit :=
        Nat.mul_le_mul (nine_bounds hq).1 (Nat.pow_le_pow_right (by decide) (by omega))

/-- **Below it rounds down**: the text says at most `2.22507385e-308`. -/
theorem shownDecimal_le (h : q * 10 ^ decimalOffset < leastShown * quantaPerUnit) :
    shownDecimal 9 q quantaPerUnit ≤ 222507385 * 10 ^ 16 := by
  have hplace : leadingPlace q quantaPerUnit < 17 := place_lt hq (decade_of_lt h)
  by_cases heq : leadingPlace q quantaPerUnit = 16
  · rw [shownDecimal, heq]
    apply Nat.mul_le_mul_right
    rw [roundedDigits, heq, mul_shownUnit]
    exact roundHalfEven_le_of_lt_half (half_of_lt h)
  · have hlower : leadingPlace q quantaPerUnit < 16 := by omega
    exact (shownDecimal_le_of_place hq hlower).trans (by decide)

/-- **At the upper end** nine digits stay within the finite numbers. -/
theorem shownDecimal_le_max (h : q ≤ maxQuanta) :
    shownDecimal 9 q quantaPerUnit * quantaPerUnit ≤ maxQuanta * shownUnit 9 := by
  have htop : maxQuanta * 10 ^ decimalOffset < quantaPerUnit * 10 ^ (decimalOffset + 309) := by
    decide +kernel
  have hplace : leadingPlace q quantaPerUnit < decimalOffset + 309 :=
    place_lt hq ((Nat.mul_le_mul_right _ h).trans_lt htop)
  by_cases heq : leadingPlace q quantaPerUnit = decimalOffset + 308
  · have hdigits : roundedDigits 9 q quantaPerUnit ≤ 179769313 := by
      rw [roundedDigits, heq]
      apply roundHalfEven_le_of_lt_half
      have hlast : 2 * (maxQuanta * shownUnit 9) <
          (2 * 179769313 + 1) * (quantaPerUnit * 10 ^ (decimalOffset + 308)) := by decide +kernel
      exact (Nat.mul_le_mul_left 2 (Nat.mul_le_mul_right _ h)).trans_lt hlast
    rw [shownDecimal, heq]
    calc roundedDigits 9 q quantaPerUnit * 10 ^ (decimalOffset + 308) * quantaPerUnit
        ≤ 179769313 * 10 ^ (decimalOffset + 308) * quantaPerUnit :=
          Nat.mul_le_mul_right _ (Nat.mul_le_mul_right _ hdigits)
      _ ≤ maxQuanta * shownUnit 9 := by decide +kernel
  · have hlower : leadingPlace q quantaPerUnit < decimalOffset + 308 := by omega
    calc shownDecimal 9 q quantaPerUnit * quantaPerUnit
        ≤ 10 ^ (8 + (decimalOffset + 308)) * quantaPerUnit :=
          Nat.mul_le_mul_right _ (shownDecimal_le_of_place hq hlower)
      _ ≤ maxQuanta * shownUnit 9 := by decide +kernel

theorem shownDecimal_pos : 0 < shownDecimal 9 q quantaPerUnit := by
  rw [shownDecimal]
  exact Nat.mul_pos (Nat.lt_of_lt_of_le (by decide) (nine_bounds hq).1)
    (Nat.pow_pos (by decide))

end Digits

/-- The range error of the decimal that was written. -/
def shownRangeError (q : Nat) : Bool :=
  rangeError (shownDecimal 9 q quantaPerUnit) (shownUnit 9)

/-- What is shown as a normal number is read without an error. -/
theorem shownRangeError_of_le {q : Nat} (hq : 0 < q) (hmax : q ≤ maxQuanta)
    (h : leastShown * quantaPerUnit ≤ q * 10 ^ decimalOffset) : shownRangeError q = false := by
  have hfinite := magnitudeCode_lt_infinityCode (shownUnit_pos 9) (shownDecimal_le_max hq hmax)
  have hnormal : 2 ^ 52 ≤ magnitudeCode (shownDecimal 9 q quantaPerUnit)
      (shownUnit 9) := by
    apply le_magnitudeCode (shownUnit_pos 9)
    have hleast : 2 ^ 52 * shownUnit 9 ≤ 222507386 * 10 ^ 16 * quantaPerUnit := by
      decide +kernel
    exact hleast.trans (Nat.mul_le_mul_right _ (le_shownDecimal hq h))
  rw [shownRangeError, rangeError, decide_eq_false (Nat.not_le.mpr hfinite),
    decide_eq_false (Nat.not_lt.mpr hnormal)]
  rfl

/-- What is shown as a subnormal number is never exact. -/
theorem shownRangeError_of_lt {q : Nat} (hq : 0 < q)
    (h : q * 10 ^ decimalOffset < leastShown * quantaPerUnit) : shownRangeError q = true := by
  have hshown := shownDecimal_le hq h
  have hsubnormal : magnitudeCode (shownDecimal 9 q quantaPerUnit)
      (shownUnit 9) < 2 ^ 52 := by
    apply magnitudeCode_lt (shownUnit_pos 9)
    have hmost : 222507385 * 10 ^ 16 * quantaPerUnit ≤
        (2 ^ 52 - 1) * shownUnit 9 := by decide +kernel
    exact (Nat.mul_le_mul_right _ hshown).trans hmost
  have hinexact : shownDecimal 9 q quantaPerUnit * quantaPerUnit % shownUnit 9 ≠ 0 := by
    intro hzero
    -- the fives of the denominator would divide the digits
    rw [shownUnit_eq] at hzero
    have hfives : 5 ^ (decimalOffset + (9 - 1)) ∣
        shownDecimal 9 q quantaPerUnit * quantaPerUnit :=
      (pow_dvd_pow_of_dvd (by decide : 5 ∣ 10) _).trans (Nat.dvd_of_mod_eq_zero hzero)
    have hcoprime : Nat.Coprime (5 ^ (decimalOffset + (9 - 1))) quantaPerUnit := by
      unfold quantaPerUnit
      exact Nat.Coprime.pow _ _ (by decide)
    have hle := Nat.le_of_dvd (shownDecimal_pos hq) (hcoprime.dvd_of_dvd_mul_right hfives)
    exact absurd (hle.trans hshown) (by decide +kernel)
  rw [shownRangeError, rangeError, decide_eq_true hsubnormal, bne_iff_ne.mpr hinexact]
  exact Bool.or_true _

namespace Reloadable

/-- The texts that do not depend on the magnitude. -/
theorem isSome_parseDouble_special (negative : Bool) {word : Bytes}
    (h : word = ascii "nan" ∨ word = ascii "inf" ∨ word = [zeroDigit]) :
    (accepted (strtod ((if negative then [minus] else []) ++ word))).isSome = true := by
  rcases h with rfl | rfl | rfl <;> cases negative <;> decide +kernel

/-- A finite number comes back unless its nine digits are out of range. -/
theorem isSome_reread_finite {v : Double} (hnan : v.isNan = false) (hinf : v.isInf = false)
    (hzero : v.quanta ≠ 0) :
    (parseDouble (formatDouble v)).isSome = !shownRangeError v.quanta := by
  rw [parseDouble_formatDouble, formatDouble,
    strtod_formatGeneral (Nat.succ_pos 8) hnan hinf hzero,
    convertDecimal_scientific _ (Nat.succ_pos 8)]
  cases herror : shownRangeError v.quanta <;> unfold shownRangeError at herror <;>
    simp [accepted, herror]

/-- **Which values come back**: a formatted value is accepted again when it is not
shown as a subnormal number. -/
theorem isSome_reread_iff (v : Double) :
    (parseDouble (formatDouble v)).isSome = true ↔ Reloadable v := by
  by_cases hnan : v.isNan = true
  · have hformat : formatDouble v = (if v.negative then [minus] else []) ++ ascii "nan" := by
      simp [formatDouble, formatGeneral, hnan]
    rw [parseDouble_formatDouble, hformat]
    exact iff_of_true (isSome_parseDouble_special _ (Or.inl rfl)) (Or.inl hnan)
  by_cases hinf : v.isInf = true
  · have hformat : formatDouble v = (if v.negative then [minus] else []) ++ ascii "inf" := by
      simp [formatDouble, formatGeneral, hnan, hinf]
    rw [parseDouble_formatDouble, hformat]
    exact iff_of_true (isSome_parseDouble_special _ (Or.inr (Or.inl rfl))) (Or.inr (Or.inl hinf))
  by_cases hzero : v.quanta = 0
  · have hformat : formatDouble v = (if v.negative then [minus] else []) ++ [zeroDigit] := by
      simp [formatDouble, formatGeneral, hnan, hinf, hzero]
    rw [parseDouble_formatDouble, hformat]
    exact iff_of_true (isSome_parseDouble_special _ (Or.inr (Or.inr rfl)))
      (Or.inr (Or.inr (Or.inl hzero)))
  rw [Bool.not_eq_true] at hnan hinf
  rw [isSome_reread_finite hnan hinf hzero]
  have hpos : 0 < v.quanta := Nat.pos_of_ne_zero hzero
  by_cases hleast : leastShown * quantaPerUnit ≤ v.quanta * 10 ^ decimalOffset
  · rw [shownRangeError_of_le hpos (quanta_le hnan hinf) hleast]
    exact iff_of_true rfl (Or.inr (Or.inr (Or.inr hleast)))
  · rw [shownRangeError_of_lt hpos (Nat.not_le.mp hleast)]
    apply iff_of_false (by decide)
    intro h
    rcases h with h | h | h | h
    · rw [hnan] at h
      cases h
    · rw [hinf] at h
      cases h
    · exact hzero h
    · exact hleast h

end Reloadable

namespace StateStore

/-- A stored value was set by one of the calls. -/
theorem set_mem_of_get {ops : List StoreOp} {name : Bytes} {v : Double}
    (h : (runOps ops).get name = some v) : StoreOp.set name v ∈ ops := by
  induction ops using List.reverseRecOn with
  | nil =>
      unfold runOps get at h
      rw [List.foldl_nil, SortedMap.lookup_empty] at h
      cases h
  | append_singleton ops op ih =>
      rw [List.mem_append, List.mem_singleton]
      have hrun : runOps (ops ++ [op]) = apply (runOps ops) op := by
        unfold runOps
        rw [List.foldl_append]
        rfl
      rw [hrun, get] at h
      cases op with
      | set key value =>
          rw [apply, set, SortedMap.lookup_insert] at h
          split_ifs at h with hkey
          · cases h
            exact Or.inr (by rw [hkey])
          · exact Or.inl (ih h)
      | remove key =>
          rw [apply, remove, SortedMap.lookup_erase] at h
          split_ifs at h
          exact Or.inl (ih h)

/-- The saved file is loaded when every stored value comes back. -/
theorem load_saveText_iff (store fresh : StateStore) (path : Bytes) :
    (∃ loaded, fresh.load path (.contents (saveText store.snapshot)) = .ok loaded) ↔
      ∀ name v, store.get name = some v → Reloadable v := by
  have hload : (∃ loaded, fresh.load path (.contents (saveText store.snapshot)) = .ok loaded) ↔
      (parseFlatNumberObject (saveText store.snapshot)).isSome = true := by
    simp only [load]
    cases parseFlatNumberObject (saveText store.snapshot) <;> simp
  rw [hload, parseFlatNumberObject, snapshot, tokenizeFlatObject_saveText, Option.bind_eq_bind,
    Option.bind_some, foldlM_parseDouble_isSome, List.forall_mem_map]
  constructor
  · intro h name v hget
    have hitem := h (name, v) ((SortedMap.mem_entries_iff _ _ _).mpr hget)
    exact (Reloadable.isSome_reread_iff v).mp hitem
  · intro h item hitem
    apply (Reloadable.isSome_reread_iff item.2).mpr
    exact h item.1 item.2 ((SortedMap.mem_entries_iff _ _ _).mp hitem)

/-- **Which saved files stop the next start.**  A value comes back from its text exactly
when it is not shown as a subnormal number, and the file saved after any calls is loaded
exactly when every stored value comes back, as it is when every value that was set does. -/
theorem reloads_iff (ops : List StoreOp) (path : Bytes) (files : StateFiles)
    (fresh : StateStore) :
    (∀ v, (parseDouble (formatDouble v)).isSome = true ↔ Reloadable v) ∧
      ∃ text, (runOps ops).save path files .succeeds = (.ok (), ⟨some text, none⟩) ∧
        ((∃ loaded, fresh.load path (.contents text) = .ok loaded) ↔
          ∀ name v, (runOps ops).get name = some v → Reloadable v) ∧
        ((∀ name v, StoreOp.set name v ∈ ops → Reloadable v) →
          ∃ loaded, fresh.load path (.contents text) = .ok loaded) := by
  have hload := load_saveText_iff (runOps ops) fresh path
  refine ⟨Reloadable.isSome_reread_iff, _, rfl, hload, ?_⟩
  intro hops
  exact hload.mpr fun name v hget => hops name v (set_mem_of_get hget)

/-- The least positive number is accepted in hexadecimal; its text `4.94065646e-324` is
not, and neither is a file with it. -/
theorem reloads_least :
    ∃ v, parseDouble (ascii "0x1p-1074") = some v ∧
      parseDouble (formatDouble v) = none ∧
      ∃ text, (runOps [.set [97] v]).save (ascii "state.json") ⟨none, none⟩ .succeeds =
          (.ok (), ⟨some text, none⟩) ∧
        ∀ loaded, (runOps []).load (ascii "state.json") (.contents text) ≠ .ok loaded := by
  have hleast : ¬ Reloadable (ofCode false 1) := by decide +kernel
  refine ⟨ofCode false 1, by decide +kernel, ?_, _, rfl, ?_⟩
  · rw [← Option.isNone_iff_eq_none, ← Option.not_isSome, Bool.not_eq_true',
      ← Bool.not_eq_true, Reloadable.isSome_reread_iff]
    exact hleast
  · intro loaded hloaded
    have hvalues := (load_saveText_iff _ _ _).mp ⟨loaded, hloaded⟩
    exact hleast (hvalues [97] (ofCode false 1) (by decide +kernel))

end StateStore

end Nshmqtt
