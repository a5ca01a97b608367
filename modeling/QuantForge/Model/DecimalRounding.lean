import QuantForge.Model.DecimalMath
import QuantForge.Math.Rounding

namespace QuantForge

open Rounding

namespace Decimal

/-- The numbers decimals stand for. -/
def format : Format where
  base := 10
  limit := 2 ^ 96
  scales := 28
  one_le := by decide
  limit_pos := zero.mantissa_lt
  even := by decide
  carries := by
    have h : 7922816251426433759354395034 ≤
        roundEven ((((2 ^ 96 : ℕ) : ℚ) - 1 / 2) / ((10 : ℕ) : ℚ)) := by
      rw [le_roundEven_iff]
      left
      norm_num
    push_cast at h ⊢
    linarith

theorem ofNat_value {n : Nat} (h : n < 2 ^ 96) : (ofNat n h).value = n := by
  simp [ofNat, value, signed]

theorem holds_value (d : Decimal) : format.Holds d.value := by
  refine ⟨d.signed, d.scale, ?_, d.scale_le, ?_⟩
  · have hlt := d.mantissa_lt
    have hmagnitude : |d.signed| = d.mantissa := by
      unfold signed
      split_ifs <;> simp
    rw [hmagnitude]
    exact_mod_cast hlt
  · simp [value, format]

theorem natAbs_units_lt {q : ℚ} (h : format.Fits q 0) : (format.units q).natAbs < 2 ^ 96 := by
  have hlt := Format.abs_units_lt h
  have hlimit : (format.limit : ℤ) = 2 ^ 96 := rfl
  rw [hlimit, abs_lt] at hlt
  omega

/-- `q` at the most places its digits leave room for, the last one rounded half to even,
or nothing where the range ends. -/
def ofRounded (q : ℚ) : Option Decimal :=
  if h : format.Fits q 0 then
    some ⟨decide (format.units q < 0), (format.units q).natAbs, format.places q,
      natAbs_units_lt h, Format.places_le q⟩
  else none

/-- `answer` is `q` rounded, or nothing where `q` is out of range. -/
structure Rounds (answer : Option Decimal) (q : ℚ) : Prop where
  fits_iff : answer.isSome = true ↔ format.Fits q 0
  value_eq {d : Decimal} : answer = some d → d.value = format.rounded q

theorem ofRounded_rounds (q : ℚ) : Rounds (ofRounded q) q := by
  constructor
  · unfold ofRounded
    split_ifs with h <;> simp [h]
  · intro d hd
    unfold ofRounded at hd
    split_ifs at hd with h
    cases hd
    have sign : (if decide (format.units q < 0) = true then -((format.units q).natAbs : ℤ)
        else (format.units q).natAbs) = format.units q := by
      simp only [decide_eq_true_eq]
      split_ifs <;> omega
    rw [value, signed, sign, Format.rounded]
    simp [format]

namespace Rounds

variable {answer : Option Decimal} {q : ℚ}

theorem fits (h : Rounds answer q) {d : Decimal} (hd : answer = some d) : format.Fits q 0 :=
  h.fits_iff.mp (by rw [hd]; rfl)

theorem answers (h : Rounds answer q) (hq : format.Fits q 0) :
    ∃ d, answer = some d ∧ d.value = format.rounded q := by
  obtain ⟨d, hd⟩ := Option.isSome_iff_exists.mp (h.fits_iff.mpr hq)
  exact ⟨d, hd, h.value_eq hd⟩

theorem none_iff (h : Rounds answer q) : answer = none ↔ ¬ format.Fits q 0 := by
  rw [← h.fits_iff, Option.not_isSome_iff_eq_none]

/-- A number that is a decimal is answered as it is. -/
theorem exact_ (h : Rounds answer q) (hq : format.Holds q) :
    ∃ d, answer = some d ∧ d.value = q := by
  obtain ⟨d, hd, hvalue⟩ := h.answers hq.fits
  exact ⟨d, hd, hvalue.trans (Format.rounded_eq_self hq)⟩

/-- A decimal that is not above `q` is not above what `q` is rounded to. -/
theorem le_of_le (h : Rounds answer q) {d e : Decimal} (hd : answer = some d)
    (he : e.value ≤ q) : e.value ≤ d.value := by
  rw [h.value_eq hd, ← Format.rounded_eq_self e.holds_value]
  exact Format.rounded_mono e.holds_value.fits (h.fits hd) he

theorem ge_of_ge (h : Rounds answer q) {d e : Decimal} (hd : answer = some d)
    (he : q ≤ e.value) : d.value ≤ e.value := by
  rw [h.value_eq hd, ← Format.rounded_eq_self e.holds_value]
  exact Format.rounded_mono (h.fits hd) e.holds_value.fits he

end Rounds

end Decimal

/-- `rust_decimal`'s results are the exact ones, rounded to fit, and nothing is divided by
zero. -/
class RoundedMath [DecimalMath] : Prop where
  add_rounds (a b : Decimal) : Decimal.Rounds (DecimalMath.checkedAdd a b) (a.value + b.value)
  sub_rounds (a b : Decimal) : Decimal.Rounds (DecimalMath.checkedSub a b) (a.value - b.value)
  mul_rounds (a b : Decimal) : Decimal.Rounds (DecimalMath.checkedMul a b) (a.value * b.value)
  div_rounds {a b : Decimal} : b.value ≠ 0 →
    Decimal.Rounds (DecimalMath.checkedDiv a b) (a.value / b.value)
  div_zero {a b : Decimal} : b.value = 0 → DecimalMath.checkedDiv a b = none

/-- The arithmetic computed over the rationals. -/
@[reducible] def DecimalMath.rounding : DecimalMath where
  checkedAdd a b := Decimal.ofRounded (a.value + b.value)
  checkedSub a b := Decimal.ofRounded (a.value - b.value)
  checkedMul a b := Decimal.ofRounded (a.value * b.value)
  checkedDiv a b := if b.isZero then none else Decimal.ofRounded (a.value / b.value)

theorem DecimalMath.rounding_roundedMath : @RoundedMath DecimalMath.rounding := by
  let _ := DecimalMath.rounding
  constructor
  · intro a b
    exact Decimal.ofRounded_rounds _
  · intro a b
    exact Decimal.ofRounded_rounds _
  · intro a b
    exact Decimal.ofRounded_rounds _
  · intro a b hb
    have hzero : ¬ b.isZero = true := fun h => hb (Decimal.isZero_iff.mp h)
    show Decimal.Rounds (if b.isZero then none else Decimal.ofRounded (a.value / b.value)) _
    rw [if_neg hzero]
    exact Decimal.ofRounded_rounds _
  · intro a b hb
    exact if_pos (Decimal.isZero_iff.mpr hb)

end QuantForge
