import QuantForge.Framework.Reader
import QuantForge.Model.DecimalRounding

namespace QuantForge.Decimal

open Rounding

theorem trunc_value {d : Decimal} (h : 0 ≤ d.value) : d.trunc.value = ⌊d.value⌋ := by
  have hpow : (0 : ℚ) < 10 ^ d.scale := by positivity
  have hsigned : 0 ≤ d.signed := by
    rw [value, le_div_iff₀ hpow, zero_mul] at h
    exact_mod_cast h
  have hmantissa : d.signed = d.mantissa := by
    unfold signed at hsigned ⊢
    split_ifs with hneg
    · rw [if_pos hneg] at hsigned
      omega
    · rfl
  have htrunc : d.trunc.signed = (d.mantissa / 10 ^ d.scale : ℕ) := by
    have hsign : d.trunc.negative = d.negative := rfl
    have hwhole : d.trunc.mantissa = d.mantissa / 10 ^ d.scale := rfl
    unfold signed at hmantissa ⊢
    rw [hsign, hwhole]
    split_ifs with hneg
    · rw [if_pos hneg] at hmantissa
      have hzero : d.mantissa = 0 := by omega
      simp [hzero]
    · rfl
  have hfloor : ⌊d.value⌋ = (d.mantissa / 10 ^ d.scale : ℕ) := by
    have hwhole := Rat.floor_natCast_div_natCast d.mantissa (10 ^ d.scale)
    have hcast : d.value = (d.mantissa : ℚ) / (10 ^ d.scale : ℕ) := by
      rw [value, hmantissa]
      push_cast
      rfl
    rw [hcast, hwhole]
    rfl
  have hscale : d.trunc.scale = 0 := rfl
  rw [hfloor, value, htrunc, hscale, pow_zero, div_one]

/-- `value` comes out as the last multiple of `step` that is not above it, and nothing
panics on the way. -/
def RoundsDown [DecimalMath] (value step : Decimal) : Prop :=
  ∃ r, value.roundDownToStep step = .ok r ∧ (∃ n : ℕ, r.value = n * step.value) ∧
    r.value ≤ value.value ∧ value.value - step.value < r.value

/-- Rounding the last digit there is room for takes `q` to the next whole number. -/
def CarriesUp (q : ℚ) : Prop :=
  (⌊q⌋ + 1) * 10 ^ format.places q - 1 / 2 < q * 10 ^ format.places q ∨
    (q * 10 ^ format.places q = (⌊q⌋ + 1) * 10 ^ format.places q - 1 / 2 ∧
      (⌊q⌋ + 1) * 10 ^ format.places q % 2 = 0)

theorem carriesUp_iff {q : ℚ} :
    CarriesUp q ↔ (⌊q⌋ + 1) * 10 ^ format.places q ≤ format.units q := by
  have hbase : (format.base : ℚ) = 10 := rfl
  rw [Format.units, le_roundEven_iff, hbase]
  push_cast
  rfl

theorem rounded_eq (q : ℚ) : format.rounded q = format.units q / 10 ^ format.places q := rfl

section Quotient

variable {q : ℚ}

/-- A rounded quotient keeps its whole part, unless it is carried. -/
theorem floor_rounded (hcarry : ¬ CarriesUp q) : ⌊format.rounded q⌋ = ⌊q⌋ := by
  have hpow : (0 : ℚ) < 10 ^ format.places q := by positivity
  have low : ⌊q⌋ * 10 ^ format.places q ≤ format.units q := by
    have hle : ((⌊q⌋ * 10 ^ format.places q : ℤ) : ℚ) ≤ q * format.base ^ format.places q := by
      push_cast
      exact mul_le_mul_of_nonneg_right (Int.floor_le q) hpow.le
    have := roundEven_mono hle
    rwa [roundEven_intCast] at this
  have high : format.units q < (⌊q⌋ + 1) * 10 ^ format.places q := by
    rw [← not_le, ← carriesUp_iff]
    exact hcarry
  rw [Int.floor_eq_iff, rounded_eq, le_div_iff₀ hpow, div_lt_iff₀ hpow]
  exact ⟨by exact_mod_cast low, by exact_mod_cast high⟩

theorem rounded_of_carriesUp (hcarry : CarriesUp q) : format.rounded q = ⌊q⌋ + 1 := by
  have hpow : (0 : ℚ) < 10 ^ format.places q := by positivity
  have high : format.units q ≤ (⌊q⌋ + 1) * 10 ^ format.places q := by
    have hle : q * format.base ^ format.places q ≤
        (((⌊q⌋ + 1) * 10 ^ format.places q : ℤ) : ℚ) := by
      push_cast
      exact mul_le_mul_of_nonneg_right (Int.lt_floor_add_one q).le hpow.le
    have := roundEven_mono hle
    rwa [roundEven_intCast] at this
  have units : format.units q = (⌊q⌋ + 1) * 10 ^ format.places q :=
    le_antisymm high (carriesUp_iff.mp hcarry)
  rw [rounded_eq, units, div_eq_iff hpow.ne']
  push_cast
  rfl

/-- A whole number is not carried to the next one. -/
theorem not_carriesUp_intCast (n : ℤ) : ¬ CarriesUp (n : ℚ) := by
  intro h
  have hpos : 0 < (10 : ℤ) ^ format.places (n : ℚ) := by positivity
  have hunits : format.units (n : ℚ) = n * 10 ^ format.places (n : ℚ) := by
    have := roundEven_intCast (K := ℚ) (n * 10 ^ format.places (n : ℚ))
    push_cast at this
    exact this
  have := carriesUp_iff.mp h
  rw [hunits, Int.floor_intCast] at this
  nlinarith

end Quotient

/-- The truncated quotient: its whole part, or the next number where it was carried. -/
theorem trunc_quotient {answer : Option Decimal} {q : ℚ} {a : Decimal} (h : Rounds answer q)
    (hq : 0 ≤ q) (ha : answer = some a) : a.trunc.value = ⌊format.rounded q⌋ := by
  have hnonneg : 0 ≤ a.value := by
    rw [h.value_eq ha]
    exact Format.rounded_nonneg hq
  rw [trunc_value hnonneg, h.value_eq ha]

section

variable [DecimalMath] {value step r : Decimal}

theorem roundDownToStep_ok (hstep : 0 < step.value) :
    value.roundDownToStep step = .ok r ↔
      ∃ q, DecimalMath.checkedDiv value step = some q ∧
        DecimalMath.checkedMul q.trunc step = some r := by
  have hpositive : ¬ step.le .zero = true := by
    rw [not_le_zero.mpr hstep]
    exact Bool.false_ne_true
  rw [roundDownToStep, if_neg hpositive, bind_ok]
  simp only [DecimalMath.div, DecimalMath.mul, DecimalMath.orPanic_ok]

variable [RoundedMath]

/-- Where the quotient is carried, the product is not below the value. -/
theorem le_of_carriesUp (hvalue : 0 ≤ value.value) (hstep : 0 < step.value)
    (hr : value.roundDownToStep step = .ok r) (hcarry : CarriesUp (value.value / step.value)) :
    value.value ≤ r.value := by
  obtain ⟨a, ha, hmul⟩ := (roundDownToStep_ok hstep).mp hr
  have htrunc := trunc_quotient (RoundedMath.div_rounds hstep.ne') (div_nonneg hvalue hstep.le) ha
  apply (RoundedMath.mul_rounds a.trunc step).le_of_le hmul
  have hwhole : ⌊format.rounded (value.value / step.value)⌋ = ⌊value.value / step.value⌋ + 1 := by
    rw [rounded_of_carriesUp hcarry]
    exact_mod_cast Int.floor_intCast (⌊value.value / step.value⌋ + 1)
  rw [htrunc, hwhole, ← div_le_iff₀ hstep]
  push_cast
  exact (Int.lt_floor_add_one _).le

/-- Rounding down does what its name says exactly where the quotient is in range, is not
carried to the next whole number, and the multiple it leaves is a decimal. -/
theorem roundsDown_iff (hvalue : 0 ≤ value.value) (hstep : 0 < step.value) :
    RoundsDown value step ↔
      value.value / step.value + 1 / 2 < 2 ^ 96 ∧ ¬ CarriesUp (value.value / step.value) ∧
        ∃ d : Decimal, d.value = ⌊value.value / step.value⌋ * step.value := by
  set q := value.value / step.value with hq
  have hquotient : 0 ≤ q := div_nonneg hvalue hstep.le
  have hback : q * step.value = value.value := div_mul_cancel₀ _ hstep.ne'
  have hrange : q + 1 / 2 < 2 ^ 96 ↔ format.Fits q 0 := by
    rw [Format.Fits, abs_of_nonneg hquotient, pow_zero, mul_one]
    exact_mod_cast Iff.rfl
  have hdiv : Rounds (DecimalMath.checkedDiv value step) q := RoundedMath.div_rounds hstep.ne'
  rw [hrange, RoundsDown]
  constructor
  · rintro ⟨r, hr, ⟨n, hn⟩, hle, hgt⟩
    obtain ⟨a, ha, -⟩ := (roundDownToStep_ok hstep).mp hr
    have hfloor : ⌊q⌋ = n := by
      rw [Int.floor_eq_iff]
      push_cast
      constructor
      · apply le_of_mul_le_mul_right _ hstep
        rw [hback, ← hn]
        exact hle
      · apply lt_of_mul_lt_mul_right _ hstep.le
        rw [hback, add_mul, ← hn]
        linarith
    refine ⟨hdiv.fits ha, ?_, r, ?_⟩
    · -- a value that is a multiple is its own quotient, and that is not carried
      intro hcarry
      have hwhole : q = (n : ℤ) := by
        rw [hq, div_eq_iff hstep.ne', le_antisymm (le_of_carriesUp hvalue hstep hr hcarry) hle, hn]
        push_cast
        rfl
      rw [hwhole] at hcarry
      exact not_carriesUp_intCast _ hcarry
    · rw [hfloor, hn]
      push_cast
      rfl
  · rintro ⟨hfits, hcarry, d, hd⟩
    obtain ⟨a, ha, -⟩ := hdiv.answers hfits
    have hproduct := RoundedMath.mul_rounds a.trunc step
    rw [trunc_quotient hdiv hquotient ha, floor_rounded hcarry, ← hd] at hproduct
    obtain ⟨r, hr, hexact⟩ := hproduct.exact_ d.holds_value
    have hlow := mul_le_mul_of_nonneg_right (Int.floor_le q) hstep.le
    have hhigh := mul_lt_mul_of_pos_right (Int.lt_floor_add_one q) hstep
    have hnat : ((⌊q⌋.toNat : ℕ) : ℤ) = ⌊q⌋ := Int.toNat_of_nonneg (Int.floor_nonneg.mpr hquotient)
    refine ⟨r, (roundDownToStep_ok hstep).mpr ⟨a, ha, hr⟩, ⟨⌊q⌋.toNat, ?_⟩, ?_, ?_⟩
    · rw [hexact, hd]
      congr 1
      exact_mod_cast hnat.symm
    · rw [hexact, hd]
      linarith
    · rw [hexact, hd]
      linarith

end

theorem roundsDown_iff_five : let _ := DecimalMath.rounding
    RoundsDown (ofNat 5) (ofNat 2) ↔
      (ofNat 5).value / (ofNat 2).value + 1 / 2 < 2 ^ 96 ∧
        ¬ CarriesUp ((ofNat 5).value / (ofNat 2).value) ∧
        ∃ d : Decimal, d.value = ⌊(ofNat 5).value / (ofNat 2).value⌋ * (ofNat 2).value := by
  let _ := DecimalMath.rounding
  have _ := DecimalMath.rounding_roundedMath
  exact roundsDown_iff (by decide +kernel) (by decide +kernel)

/-- 2.9999999999999999999999999999, the decimal before 3. -/
def belowThree : Decimal := ⟨false, 3 * 10 ^ 28 - 1, 28, by decide, by decide⟩

/-- The quotient 0.9999999999999999999999999999667 is rounded to 1, so the decimal before
3 is rounded up to it. -/
theorem belowThree_rounded_up : let _ := DecimalMath.rounding
    0 ≤ belowThree.value ∧ 0 < (ofNat 3).value ∧
      (belowThree.roundDownToStep (ofNat 3)).map value = .ok 3 ∧
      ¬ RoundsDown belowThree (ofNat 3) := by
  let _ := DecimalMath.rounding
  have computed : (belowThree.roundDownToStep (ofNat 3)).map value = .ok 3 := by decide +kernel
  refine ⟨by decide +kernel, by decide +kernel, computed, ?_⟩
  rintro ⟨r, hr, -, hle, -⟩
  rw [hr] at computed
  have hthree : r.value = 3 := Except.ok.inj computed
  rw [hthree] at hle
  exact absurd hle (by decide +kernel)

end QuantForge.Decimal
