import CellAlign.Decimal.Binary

/-!
# Numbers in canonical form

Whatever is rounded to a number of the format is in canonical form, because the exponent is chosen
by the size of the quotient: in its units the whole part has 53 bits, or fewer at the least
exponent.  A canonical form is the only one of its value, so the numbers that are compared part by
part are equal just if their values are.

* `Binary.fits_exponentOf`: the whole part at the exponent that is chosen;
* `Binary.canonical_of_ofRatio?`, `Binary.canonical_of_ofDecimal?`: rounding gives canonical forms;
* `Binary.sameValue_iff`: canonical forms are told apart by their values.
-/

namespace CellAlign.Decimal.Binary

variable {num den : Nat} {exponent : Int} {x y : Binary}

/-! ## Quotients in units -/

/-- A shifted number is between the powers of two that its length says. -/
theorem one_shiftLeft_le_and_lt {n : Nat} (h : n ≠ 0) (i : Nat) :
    1 <<< (n.log2 + i) ≤ n <<< i ∧ n <<< i < 1 <<< (n.log2 + i + 1) := by
  have hpos := Nat.two_pow_pos i
  have hlow := Nat.mul_le_mul_right (Nat.pow 2 i) (Nat.log2_self_le h)
  have hhigh := Nat.mul_lt_mul_of_pos_right (@Nat.lt_log2_self n) hpos
  simp only [Nat.shiftLeft_eq, Nat.one_mul, Nat.pow_add] at hlow hhigh ⊢
  constructor
  · exact hlow
  · calc n * 2 ^ i < 2 ^ n.log2 * 2 ^ 1 * 2 ^ i := hhigh
      _ = 2 ^ n.log2 * 2 ^ i * 2 ^ 1 := Nat.mul_right_comm _ _ _

/-- In units of twice the size there is half as much. -/
theorem inUnits_add_one (num den : Nat) (exponent : Int) :
    (inUnits num den (exponent + 1)).1 = (inUnits num den exponent).1 / 2 := by
  simp only [inUnits]
  by_cases h : 0 ≤ exponent
  · have hup : (exponent + 1).toNat = exponent.toNat + 1 := by omega
    have hdown : (-(exponent + 1)).toNat = (-exponent).toNat := by omega
    rw [hup, hdown, Nat.shiftLeft_succ, Nat.mul_comm, Nat.div_div_eq_div_mul]
  · have hup : (exponent + 1).toNat = exponent.toNat := by omega
    have hdown : (-exponent).toNat = (-(exponent + 1)).toNat + 1 := by omega
    rw [hup, hdown, Nat.shiftLeft_succ, Nat.div_div_eq_div_mul, Nat.mul_comm _ 2,
      Nat.mul_div_mul_left _ _ Nat.two_pos]

/-- In greater units there is no more. -/
theorem inUnits_le_of_le {least : Int} (h : exponent ≤ least) :
    (inUnits num den least).1 ≤ (inUnits num den exponent).1 := by
  obtain ⟨k, rfl⟩ : ∃ k : Nat, least = exponent + k := ⟨(least - exponent).toNat, by omega⟩
  clear h
  induction k with
  | zero => simp
  | succ k ih =>
      have hstep := inUnits_add_one num den (exponent + k)
      rw [Int.add_assoc] at hstep
      rw [Int.natCast_succ, hstep]
      omega

/-- A quotient is as long as its parts say. -/
theorem quotient_bounds {n d k : Nat} (hlow : 1 <<< (k + 53) ≤ n) (hhigh : n < 1 <<< (k + 54))
    (hlow' : 1 <<< k ≤ d) (hhigh' : d < 1 <<< (k + 1)) : 1 <<< 52 ≤ n / d ∧ n / d < 1 <<< 54 := by
  have hpos : 0 < 1 <<< k := by
    rw [Nat.one_shiftLeft]
    exact Nat.two_pow_pos k
  rw [Nat.le_div_iff_mul_le (by omega), Nat.div_lt_iff_lt_mul (by omega)]
  simp only [Nat.shiftLeft_add, Nat.shiftLeft_eq _ 53, Nat.shiftLeft_eq _ 54,
    Nat.shiftLeft_eq _ 1, Nat.shiftLeft_eq _ 52] at hlow hhigh hhigh' ⊢
  omega

/-- The first guess leaves a whole part of 53 bits or of 54. -/
theorem inUnits_guess (hnum : num ≠ 0) (hden : den ≠ 0)
    (hguess : exponent = (num.log2 : Int) - (den.log2 : Int) - 53) :
    1 <<< 52 ≤ (inUnits num den exponent).1 ∧ (inUnits num den exponent).1 < 1 <<< 54 := by
  obtain ⟨hlow, hhigh⟩ := one_shiftLeft_le_and_lt hnum (-exponent).toNat
  obtain ⟨hlow', hhigh'⟩ := one_shiftLeft_le_and_lt hden exponent.toNat
  have hlog : num.log2 + (-exponent).toNat = den.log2 + exponent.toNat + 53 := by omega
  rw [hlog] at hlow hhigh
  exact quotient_bounds hlow hhigh hlow' hhigh'

/-- At the exponent that is chosen the whole part has 53 bits, or the exponent is the least one. -/
theorem fits_exponentOf (hnum : num ≠ 0) (hden : den ≠ 0) :
    leastExponent ≤ exponentOf num den ∧
      (inUnits num den (exponentOf num den)).1 < 1 <<< 53 ∧
      (1 <<< 52 ≤ (inUnits num den (exponentOf num den)).1 ∨
        exponentOf num den = leastExponent) := by
  obtain ⟨chosen, hchosen, hlow, hhigh⟩ : ∃ chosen, exponentOf num den = max chosen leastExponent ∧
      1 <<< 52 ≤ (inUnits num den chosen).1 ∧ (inUnits num den chosen).1 < 1 <<< 53 := by
    obtain ⟨hlow, hhigh⟩ := inUnits_guess hnum hden rfl
    refine ⟨_, rfl, ?_⟩
    split
    · next hfits => exact ⟨hlow, hfits⟩
    · next hfits =>
      rw [inUnits_add_one]
      simp only [Nat.shiftLeft_eq] at hlow hhigh hfits ⊢
      omega
  rw [hchosen]
  rcases Int.le_total leastExponent chosen with hle | hle
  · rw [Int.max_eq_left hle]
    exact ⟨hle, hhigh, Or.inl hlow⟩
  · rw [Int.max_eq_right hle]
    exact ⟨Int.le_refl _, Nat.lt_of_le_of_lt (inUnits_le_of_le hle) hhigh, Or.inr rfl⟩

/-! ## Rounding -/

/-- Zero is in canonical form, with either sign. -/
theorem canonical_zero (negative : Bool) : (zero negative).Canonical where
  mantissa_lt := Nat.two_pow_pos 53
  least_le := Int.le_refl leastExponent
  le_greatest := show leastExponent ≤ greatestExponent by decide
  full_or_least := Or.inr rfl

/-- The sign has no part in the form. -/
theorem Canonical.withSign (h : x.Canonical) (negative : Bool) :
    ({ x with negative } : Binary).Canonical :=
  ⟨h.mantissa_lt, h.least_le, h.le_greatest, h.full_or_least⟩

/-- What a quotient is rounded to: its whole part in the units that are chosen, or one more, and if
that is one bit too long, half of it in units of twice the size. -/
theorem exists_of_ofRatio? (hnum : num ≠ 0) (h : ofRatio? num den = some x) :
    ∃ mantissa, ((inUnits num den (exponentOf num den)).1 = mantissa ∨
        (inUnits num den (exponentOf num den)).1 + 1 = mantissa) ∧
      x.exponent ≤ greatestExponent ∧
      x = if mantissa = 1 <<< 53 then ⟨false, 1 <<< 52, exponentOf num den + 1⟩
        else ⟨false, mantissa, exponentOf num den⟩ := by
  simp only [ofRatio?, beq_iff_eq, hnum, if_false] at h
  generalize inUnits num den (exponentOf num den) = quotient at h ⊢
  obtain ⟨whole, rest, unit⟩ := quotient
  dsimp only at h
  generalize hmantissa : (if decide (unit < 2 * rest) || unit == 2 * rest && whole % 2 == 1
    then whole + 1 else whole) = mantissa at h
  refine ⟨mantissa, ?_, ?_⟩
  · split at hmantissa
    · exact Or.inr hmantissa
    · exact Or.inl hmantissa
  · by_cases hlong : mantissa = 1 <<< 53
    · simp only [hlong, if_true, Option.ite_none_right_eq_some, Option.some.injEq] at h ⊢
      obtain ⟨hle, rfl⟩ := h
      exact ⟨hle, rfl⟩
    · simp only [hlong, if_false, Option.ite_none_right_eq_some, Option.some.injEq] at h ⊢
      obtain ⟨hle, rfl⟩ := h
      exact ⟨hle, rfl⟩

/-- A quotient is rounded to a number in canonical form. -/
theorem canonical_of_ofRatio? (hden : den ≠ 0) (h : ofRatio? num den = some x) : x.Canonical := by
  by_cases hnum : num = 0
  · subst hnum
    cases h
    exact canonical_zero false
  obtain ⟨hleast, hfits, hfull⟩ := fits_exponentOf hnum hden
  obtain ⟨mantissa, hmantissa, hgreatest, rfl⟩ := exists_of_ofRatio? hnum h
  split at hgreatest
  · next hlong =>
    rw [if_pos hlong]
    have hlt : 1 <<< 52 < 1 <<< 53 := by decide
    exact ⟨hlt, Int.le_add_one hleast, hgreatest, Or.inl (Nat.le_refl _)⟩
  · next hshort =>
    rw [if_neg hshort]
    have hle : mantissa ≤ 1 <<< 53 := by omega
    have hfull' : 1 <<< 52 ≤ mantissa ∨ exponentOf num den = leastExponent := by omega
    exact ⟨Nat.lt_of_le_of_ne hle hshort, hleast, hgreatest, hfull'⟩

/-- A quotient of at least one is not rounded to zero. -/
theorem isZero_of_ofRatio? (hden : den ≠ 0) (hle : den ≤ num) (h : ofRatio? num den = some x) :
    x.isZero = false := by
  have hnum : num ≠ 0 := by omega
  obtain ⟨hleast, hfits, hfull⟩ := fits_exponentOf hnum hden
  have hpos : 0 < (inUnits num den (exponentOf num den)).1 := by
    rcases hfull with hfull | hfull
    · exact Nat.lt_of_lt_of_le (by decide) hfull
    · have hwhole : 0 < (inUnits num den 0).1 := Nat.div_pos hle (Nat.pos_of_ne_zero hden)
      rw [hfull]
      exact Nat.lt_of_lt_of_le hwhole (inUnits_le_of_le (by decide))
  obtain ⟨mantissa, hmantissa, -, rfl⟩ := exists_of_ofRatio? hnum h
  split
  · rfl
  · exact beq_false_of_ne (by dsimp only; omega)

/-- The parts of a ratio are not zero, but for the numerator of a zero. -/
theorem ratio_ne_zero (x : Binary) :
    x.ratio.2 ≠ 0 ∧ (x.isZero = false → x.ratio.1 ≠ 0) := by
  have hshift (n i : Nat) (hn : n ≠ 0) : n <<< i ≠ 0 := by
    rw [Nat.shiftLeft_eq]
    exact Nat.mul_ne_zero hn (Nat.ne_of_gt (Nat.two_pow_pos i))
  refine ⟨hshift 1 _ Nat.one_ne_zero, fun hzero => hshift _ _ ?_⟩
  simpa [isZero] using hzero

/-- A product is in canonical form. -/
theorem canonical_of_mul? {z : Binary} (h : x.mul? y = some z) : z.Canonical :=
  canonical_of_ofRatio? (Nat.mul_ne_zero x.ratio_ne_zero.1 y.ratio_ne_zero.1) h

/-- A quotient is in canonical form, unless the divisor is zero. -/
theorem canonical_of_div? {z : Binary} (hy : y.isZero = false) (h : x.div? y = some z) :
    z.Canonical :=
  canonical_of_ofRatio? (Nat.mul_ne_zero x.ratio_ne_zero.1 (y.ratio_ne_zero.2 hy)) h

/-- Divisions by numbers other than zero keep the canonical form. -/
theorem canonical_of_lower {power : Nat → Option Binary}
    (hpower : ∀ n y, power n = some y → y.isZero = false) {steps n : Nat} (hx : x.Canonical)
    (h : ofDecimal?.lower power steps x n = some y) : y.Canonical := by
  induction steps generalizing x n with
  | zero =>
      cases h
      exact hx
  | succ steps ih =>
      rw [ofDecimal?.lower] at h
      split at h
      · obtain ⟨divisor, hdivisor, hquotient⟩ := Option.bind_eq_some_iff.mp h
        exact canonical_of_div? (hpower n divisor hdivisor) hquotient
      split at h
      · cases h
        exact hx
      · obtain ⟨divisor, hdivisor, hrest⟩ := Option.bind_eq_some_iff.mp h
        obtain ⟨quotient, hquotient, hlower⟩ := Option.bind_eq_some_iff.mp hrest
        exact ih (canonical_of_div? (hpower 308 divisor hdivisor) hquotient) hlower

/-- The number that is read for a decimal is in canonical form. -/
theorem canonical_of_ofDecimal? {significand : Nat}
    (h : ofDecimal? significand exponent = some x) : x.Canonical := by
  have hpower (n : Nat) (y : Binary) (hy : ofRatio? (Nat.pow 10 n) 1 = some y) :
      y.isZero = false := isZero_of_ofRatio? Nat.one_ne_zero (Nat.pow_pos (by decide)) hy
  obtain ⟨start, hstart, hx⟩ := Option.bind_eq_some_iff.mp h
  have hcanonical := canonical_of_ofRatio? Nat.one_ne_zero hstart
  split at hx
  · exact canonical_of_lower hpower hcanonical hx
  split at hx
  · obtain ⟨factor, -, hproduct⟩ := Option.bind_eq_some_iff.mp hx
    exact canonical_of_mul? hproduct
  split at hx
  · cases hx
    exact hcanonical
  · cases hx

/-! ## Values -/

/-- Of two forms of one absolute value, the one with the smaller exponent has the greater
mantissa. -/
theorem mantissa_eq_shiftLeft (h : x.ratio.1 * y.ratio.2 = y.ratio.1 * x.ratio.2) {k : Nat}
    (hk : y.exponent = x.exponent + k) : x.mantissa = y.mantissa <<< k := by
  have hsum : y.exponent.toNat + (-x.exponent).toNat =
      k + (x.exponent.toNat + (-y.exponent).toNat) := by omega
  simp only [ratio, Nat.shiftLeft_eq, Nat.one_mul, Nat.mul_assoc, ← Nat.pow_add] at h ⊢
  rw [hsum, Nat.pow_add _ k, ← Nat.mul_assoc] at h
  exact Nat.eq_of_mul_eq_mul_right (Nat.two_pow_pos _) h

/-- Of two canonical forms of one absolute value none has the greater exponent. -/
theorem exponent_le_of_ratio_eq (hx : x.Canonical) (hy : y.Canonical)
    (h : x.ratio.1 * y.ratio.2 = y.ratio.1 * x.ratio.2) : y.exponent ≤ x.exponent := by
  refine Int.not_lt.mp fun hlt => ?_
  obtain ⟨k, hk⟩ : ∃ k : Nat, y.exponent = x.exponent + (k + 1 : Nat) :=
    ⟨(y.exponent - x.exponent - 1).toNat, by omega⟩
  -- The mantissa of the greater exponent has all its bits, so the other would have more.
  have hmantissa := mantissa_eq_shiftLeft h hk
  have hleast := hx.least_le
  have hfull : 1 <<< 52 ≤ y.mantissa := hy.full_or_least.resolve_right (by omega)
  have hfits := hx.mantissa_lt
  have hmore : y.mantissa ≤ y.mantissa <<< k := by
    rw [Nat.shiftLeft_eq]
    exact Nat.le_mul_of_pos_right _ (Nat.two_pow_pos k)
  rw [hmantissa, Nat.shiftLeft_succ] at hfits
  omega

/-- A canonical form is the only one of its absolute value. -/
theorem eq_of_ratio_eq (hx : x.Canonical) (hy : y.Canonical)
    (h : x.ratio.1 * y.ratio.2 = y.ratio.1 * x.ratio.2) :
    x.mantissa = y.mantissa ∧ x.exponent = y.exponent := by
  have hexponent : y.exponent = x.exponent :=
    Int.le_antisymm (exponent_le_of_ratio_eq hx hy h) (exponent_le_of_ratio_eq hy hx h.symm)
  exact ⟨mantissa_eq_shiftLeft (k := 0) h (by omega), hexponent.symm⟩

/-- Numbers in canonical form are equal just if their values are, where a zero has no sign. -/
theorem sameValue_iff (hx : x.Canonical) (hy : y.Canonical) :
    x.sameValue y = true ↔ x.ratio.1 * y.ratio.2 = y.ratio.1 * x.ratio.2 ∧
      (x.negative = y.negative ∨ x.isZero = true) := by
  simp only [sameValue, Bool.or_eq_true, Bool.and_eq_true, beq_iff_eq]
  constructor
  · rintro (rfl | ⟨hzero, hzero'⟩)
    · exact ⟨rfl, Or.inl rfl⟩
    · have hmantissa : x.mantissa = 0 := by simpa [isZero] using hzero
      have hmantissa' : y.mantissa = 0 := by simpa [isZero] using hzero'
      exact ⟨by simp [ratio, hmantissa, hmantissa'], Or.inr hzero⟩
  · rintro ⟨hratio, hsign⟩
    obtain ⟨hmantissa, hexponent⟩ := eq_of_ratio_eq hx hy hratio
    rcases hsign with hsign | hzero
    · left
      obtain ⟨negative, mantissa, exponent⟩ := x
      obtain ⟨negative', mantissa', exponent'⟩ := y
      exact Binary.mk.injEq .. ▸ ⟨hsign, hmantissa, hexponent⟩
    · right
      exact ⟨hzero, by rwa [isZero, ← hmantissa]⟩

end CellAlign.Decimal.Binary
