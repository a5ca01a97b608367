import QuantForge.Math.Binary64
import QuantForge.Math.U128
import QuantForge.Model.Decimal

namespace QuantForge

/-- A float as it is computed: a whole number, exact as a float, times a power of
two. -/
structure F64 where
  negative : Bool
  quotient : Nat
  exponent : Int
  deriving DecidableEq, Repr

namespace F64

def zero : F64 := ⟨false, 0, 0⟩

/-- The number a float stands for. -/
def value (f : F64) : ℚ :=
  (if f.negative then -(f.quotient : ℚ) else f.quotient) * 2 ^ f.exponent

/-- A number as a float, if it is one exactly. -/
def ofWhole (quotient : Nat) : Option Nat := if quotient ≤ 2 ^ 53 then some quotient else none

/-- The power of two with the given exponent bits, if they are those of a normal
float. -/
def powerOfTwo (exponent : Int) : Option Int :=
  if 1 ≤ 1023 + exponent ∧ 1023 + exponent ≤ 2046 then some exponent else none

end F64

namespace Decimal

open U128 Binary64

/-- The dividend, the divisor and by how much the mantissa was shifted for a
quotient of at least 55 bits. -/
def floatDividend (mantissa scale : Nat) : Option (Nat × Nat × Nat) := do
  let divisor ← pow 5 scale
  let shift := 55 + bits divisor - bits mantissa
  let dividend ← shl mantissa shift
  return (dividend, divisor, shift)

/-- Rounds half to even: keeps 53 bits of the quotient, and says how many are
dropped. -/
def roundQuotient (dividend divisor : Nat) : Option (Nat × Nat) := do
  let quotient ← div dividend divisor
  let remainder ← rem dividend divisor
  let dropped ← sub (bits quotient) 53
  let half ← shl 1 (← sub dropped 1)
  let mask ← sub (← shl 1 dropped) 1
  let low := quotient &&& mask
  let kept ← shr quotient dropped
  let rounded ←
    if half < low ∨ (low = half ∧ (remainder ≠ 0 ∨ kept &&& 1 = 1)) then add kept 1 else some kept
  return (rounded, dropped)

/-- The float64 nearest to `value`; none where an operation overflows or is not
exact. -/
def decimalToF64 (value : Decimal) : Option F64 :=
  if value.mantissa = 0 then some F64.zero
  else do
    let (dividend, divisor, shift) ← floatDividend value.mantissa value.scale
    let (rounded, dropped) ← roundQuotient dividend divisor
    let quotient ← F64.ofWhole rounded
    let exponent ← F64.powerOfTwo ((dropped : Int) - shift - value.scale)
    return ⟨value.negative, quotient, exponent⟩

/-- Enough quotient bits are left, and none of the dividend's are lost. -/
theorem floatDividend_some {mantissa scale : Nat} (positive : 0 < mantissa)
    (fits : mantissa < 2 ^ 96) (places : scale ≤ 28) :
    ∃ shift, floatDividend mantissa scale = some (mantissa * 2 ^ shift, 5 ^ scale, shift) ∧
      shift ≤ 120 ∧ mantissa * 2 ^ shift < 2 ^ 121 ∧ 2 ^ 54 * 5 ^ scale ≤ mantissa * 2 ^ shift := by
  have small : 5 ^ scale < 2 ^ 66 :=
    (Nat.pow_le_pow_right (by decide) places).trans_lt (by decide)
  have width : bits mantissa ≤ 96 := bits_le.mpr fits
  have divisorWidth : bits (5 ^ scale) ≤ 66 := bits_le.mpr small
  have nonzero : 0 < bits mantissa := Nat.size_pos.mpr positive
  set b := bits mantissa with hb
  set d := bits (5 ^ scale) with hd
  set shift := 55 + d - b with hshift
  have upper : mantissa * 2 ^ shift < 2 ^ 121 :=
    calc mantissa * 2 ^ shift < 2 ^ b * 2 ^ shift :=
          Nat.mul_lt_mul_of_pos_right (lt_bits_self mantissa) (by positivity)
      _ = 2 ^ (b + shift) := (Nat.pow_add 2 b shift).symm
      _ ≤ 2 ^ 121 := Nat.pow_le_pow_right (by decide) (by omega)
  have lower : 2 ^ 54 * 5 ^ scale ≤ mantissa * 2 ^ shift :=
    calc 2 ^ 54 * 5 ^ scale ≤ 2 ^ 54 * 2 ^ d := Nat.mul_le_mul_left _ (lt_bits_self _).le
      _ = 2 ^ (54 + d) := (Nat.pow_add 2 54 d).symm
      _ ≤ 2 ^ (b - 1 + shift) := Nat.pow_le_pow_right (by decide) (by omega)
      _ = 2 ^ (b - 1) * 2 ^ shift := Nat.pow_add 2 (b - 1) shift
      _ ≤ mantissa * 2 ^ shift := Nat.mul_le_mul_right _ (pow_bits_le positive)
  have shifted : shl mantissa shift = some (mantissa * 2 ^ shift) :=
    shl_lt (by omega) (upper.trans (by decide))
  have power : pow 5 scale = some (5 ^ scale) := checked_lt (small.trans (by decide))
  refine ⟨shift, ?_, by omega, upper, lower⟩
  simp only [floatDividend, power, Option.bind_eq_bind, Option.bind_some, Option.pure_def]
  rw [← hb, ← hd, ← hshift, shifted]
  rfl

/-- Rounding half to even by the dropped bits and the remainder is rounding to the
nearest integer. -/
theorem halfEven_rounds {n d q low half remainder : Nat} (hd : 0 < d)
    (split : n = q * (d * (2 * half)) + (d * low + remainder)) (hlow : low < 2 * half)
    (hremainder : remainder < d) :
    RoundsInt ((n : ℚ) / (d * (2 * half) : Nat))
      (if half < low ∨ (low = half ∧ (remainder ≠ 0 ∨ q % 2 = 1)) then q + 1 else q) := by
  have hhalf : 0 < half := by omega
  have positive : 0 < d * (2 * half) := by positivity
  set unit := d * half with hunit
  have whole : d * (2 * half) = 2 * unit := by rw [hunit]; ring
  rw [whole] at split positive ⊢
  have less : d * low + d ≤ 2 * unit :=
    calc d * low + d = d * (low + 1) := by ring
      _ ≤ d * (2 * half) := Nat.mul_le_mul_left d hlow
      _ = 2 * unit := whole
  apply roundsInt_div positive
  split_ifs with up
  · have distance : (n : Int) - (q + 1 : Nat) * (2 * unit : Nat) =
        (d * low + remainder : Nat) - (2 * unit : Nat) := by
      rw [split]
      push_cast
      ring
    rw [distance]
    rcases up with above | ⟨rfl, beyond | odd⟩
    · have more : unit + d ≤ d * low :=
        calc unit + d = d * (half + 1) := by rw [hunit]; ring
          _ ≤ d * low := Nat.mul_le_mul_left d above
      left
      rw [abs_of_nonpos (by omega)]
      omega
    · left
      rw [abs_of_nonpos (by omega)]
      omega
    · by_cases exact_ : remainder = 0
      · right
        rw [abs_of_nonpos (by omega)]
        exact ⟨by omega, Nat.even_iff.mpr (by omega)⟩
      · left
        rw [abs_of_nonpos (by omega)]
        omega
  · have distance : (n : Int) - q * (2 * unit : Nat) = (d * low + remainder : Nat) := by
      rw [split]
      push_cast
      ring
    rw [distance, abs_of_nonneg (by omega)]
    by_cases tie : low = half
    · have even_ : remainder = 0 ∧ q % 2 = 0 := by omega
      right
      refine ⟨?_, Nat.even_iff.mpr even_.2⟩
      rw [tie, ← hunit]
      omega
    · have less : d * low + d ≤ unit :=
        calc d * low + d = d * (low + 1) := by ring
          _ ≤ d * half := Nat.mul_le_mul_left d (by omega)
          _ = unit := hunit.symm
      left
      omega

/-- The rounded quotient, and by how much it was rounded. -/
theorem roundQuotient_some {n d : Nat} (hd : 0 < d) (wide : 2 ^ 54 * d ≤ n) (fits : n < 2 ^ 121) :
    ∃ rounded dropped, roundQuotient n d = some (rounded, dropped) ∧ dropped ≤ 68 ∧
      2 ^ 52 * (d * 2 ^ dropped) ≤ n ∧ n < 2 ^ 53 * (d * 2 ^ dropped) ∧
      RoundsInt ((n : ℚ) / (d * 2 ^ dropped : Nat)) rounded := by
  set quotient := n / d with hquotient
  have large : 2 ^ 54 ≤ quotient := (Nat.le_div_iff_mul_le hd).mpr wide
  have small : quotient < 2 ^ 121 := (Nat.div_le_self n d).trans_lt fits
  have width : 54 < bits quotient ∧ bits quotient ≤ 121 := ⟨lt_bits.mpr large, bits_le.mpr small⟩
  have top : 2 ^ (bits quotient - 1) ≤ quotient := pow_bits_le (by omega)
  have bound : quotient < 2 ^ bits quotient := lt_bits_self quotient
  set dropped := bits quotient - 53 with hdropped
  have doubled : 2 ^ dropped = 2 * 2 ^ (dropped - 1) := by
    rw [← Nat.pow_succ']
    congr 1
    omega
  have kept : quotient / 2 ^ dropped * 2 ^ dropped ≤ quotient := Nat.div_mul_le_self _ _
  have low53 : 2 ^ 52 * 2 ^ dropped ≤ quotient := by
    rw [← Nat.pow_add]
    exact (Nat.pow_le_pow_right (by decide) (by omega)).trans top
  have high53 : quotient < 2 ^ 53 * 2 ^ dropped := by
    rw [← Nat.pow_add]
    exact bound.trans_le (Nat.pow_le_pow_right (by decide) (by omega))
  have small128 : 2 ^ dropped < 2 ^ 128 := Nat.pow_lt_pow_right (by decide) (by omega)
  have half : shl 1 (dropped - 1) = some (2 ^ (dropped - 1)) := by
    rw [shl_lt (by omega) (by omega), one_mul]
  have unit : shl 1 dropped = some (2 ^ dropped) := by
    rw [shl_lt (by omega) (by omega), one_mul]
  have keptQuotient : quotient / 2 ^ dropped < 2 ^ 53 :=
    (Nat.div_lt_iff_lt_mul (by positivity)).mpr high53
  have carry : add (quotient / 2 ^ dropped) 1 = some (quotient / 2 ^ dropped + 1) :=
    checked_lt (by omega)
  have runs : roundQuotient n d = some
      (if 2 ^ (dropped - 1) < quotient % 2 ^ dropped ∨ (quotient % 2 ^ dropped = 2 ^ (dropped - 1) ∧
        (n % d ≠ 0 ∨ quotient / 2 ^ dropped % 2 = 1)) then quotient / 2 ^ dropped + 1
        else quotient / 2 ^ dropped, dropped) := by
    have enough : U128.sub (bits quotient) 53 = some dropped := if_pos (by omega)
    have one : U128.sub dropped 1 = some (dropped - 1) := if_pos (by omega)
    have mask : U128.sub (2 ^ dropped) 1 = some (2 ^ dropped - 1) := if_pos Nat.one_le_two_pow
    simp only [roundQuotient, U128.div, U128.rem, if_neg hd.ne', Option.bind_eq_bind,
      Option.bind_some, ← hquotient, enough, one, half, unit, mask, shr_lt (by omega : dropped < 128),
      Nat.and_two_pow_sub_one_eq_mod, Nat.and_one_is_mod, carry, Option.pure_def]
    split_ifs
    · rfl
    · rfl
  have split : n = quotient / 2 ^ dropped * (d * (2 * 2 ^ (dropped - 1))) +
      (d * (quotient % 2 ^ dropped) + n % d) := by
    rw [← doubled]
    calc n = d * quotient + n % d := (Nat.div_add_mod n d).symm
      _ = d * (2 ^ dropped * (quotient / 2 ^ dropped) + quotient % 2 ^ dropped) + n % d := by
        rw [Nat.div_add_mod quotient (2 ^ dropped)]
      _ = _ := by ring
  have rounds := halfEven_rounds hd split (by rw [← doubled]; exact Nat.mod_lt _ (by positivity))
    (Nat.mod_lt n hd)
  rw [← doubled] at rounds
  refine ⟨_, dropped, runs, by omega, ?_, ?_, rounds⟩
  · calc 2 ^ 52 * (d * 2 ^ dropped) = 2 ^ 52 * 2 ^ dropped * d := by ring
      _ ≤ quotient * d := Nat.mul_le_mul_right d low53
      _ ≤ n := Nat.div_mul_le_self n d
  · calc n < d * (quotient + 1) := Nat.lt_mul_div_succ n hd
      _ ≤ d * (2 ^ 53 * 2 ^ dropped) := Nat.mul_le_mul_left d high53
      _ = 2 ^ 53 * (d * 2 ^ dropped) := by ring

/-- The shifted quotient is the magnitude, in units of its power of two. -/
theorem scaled_magnitude (mantissa shift dropped scale : Nat) :
    ((mantissa * 2 ^ shift : Nat) : ℚ) / (5 ^ scale * 2 ^ dropped : Nat) *
      2 ^ ((dropped : Int) - shift - scale) = mantissa / 10 ^ scale := by
  have ten : (10 : ℚ) ^ scale = 5 ^ scale * 2 ^ scale := by
    rw [← mul_pow]
    norm_num
  rw [zpow_sub₀ two_ne_zero, zpow_sub₀ two_ne_zero, zpow_natCast, zpow_natCast, zpow_natCast, ten]
  push_cast
  field_simp

/-- Every decimal converts, without an overflow and rounded once, to the float
nearest to it, a tie to the even one. -/
theorem decimalToF64_rounds (value : Decimal) :
    ∃ f, decimalToF64 value = some f ∧ f.quotient ≤ 2 ^ 53 ∧
      -1022 ≤ f.exponent ∧ f.exponent ≤ 1023 ∧
      (f.negative = true ↔ value.value < 0) ∧ Rounds value.value f.value := by
  by_cases zero : value.mantissa = 0
  · have nothing : value.value = 0 := by simp [Decimal.value, signed, zero]
    refine ⟨F64.zero, if_pos zero, by decide, by decide, by decide, ?_, ?_⟩
    · simp [F64.zero, nothing]
    · have positive : F64.zero.value = 0 := by simp [F64.zero, F64.value]
      rw [nothing, positive]
      exact rounds_zero
  · obtain ⟨shift, divides, hshift, fits, wide⟩ :=
      floatDividend_some (Nat.pos_of_ne_zero zero) value.mantissa_lt value.scale_le
    have hd : 0 < 5 ^ value.scale := by positivity
    obtain ⟨rounded, dropped, hround, hdropped, low, high, rounds⟩ :=
      roundQuotient_some hd wide fits
    have places := value.scale_le
    set unit := 5 ^ value.scale * 2 ^ dropped with hunit
    have positive : (0 : ℚ) < unit := by positivity
    have least : (2 : ℚ) ^ 52 ≤ (value.mantissa * 2 ^ shift : Nat) / unit := by
      rw [le_div_iff₀ positive]
      exact_mod_cast low
    have most : ((value.mantissa * 2 ^ shift : Nat) : ℚ) / unit < 2 ^ 53 := by
      rw [div_lt_iff₀ positive]
      exact_mod_cast high
    let exponent : Int := (dropped : Int) - shift - value.scale
    have magnitude : Rounds (value.mantissa / 10 ^ value.scale) (rounded * 2 ^ exponent) := by
      rw [← scaled_magnitude value.mantissa shift dropped value.scale]
      exact rounds_scaled least most rounds (by omega) (by omega)
    have carried := (significand_bounds least most rounds).2
    refine ⟨⟨value.negative, rounded, exponent⟩, ?_, carried, ?_, ?_, ?_, ?_⟩
    · have power : F64.powerOfTwo exponent = some exponent := if_pos (by omega)
      have whole : F64.ofWhole rounded = some rounded := if_pos carried
      simp only [decimalToF64, if_neg zero, divides, hround, whole, Option.bind_eq_bind,
        Option.bind_some]
      rw [show (dropped : Int) - shift - value.scale = exponent from rfl, power]
      rfl
    · show -1022 ≤ exponent
      omega
    · show exponent ≤ 1023
      omega
    · have mantissa : (0 : ℚ) < value.mantissa := by exact_mod_cast Nat.pos_of_ne_zero zero
      have power : (0 : ℚ) < 10 ^ value.scale := by positivity
      rw [Decimal.value, signed]
      cases value.negative with
      | true => simpa using div_neg_of_neg_of_pos (neg_lt_zero.mpr mantissa) power
      | false => simpa using (div_pos mantissa power).le
    · rw [Decimal.value, signed, F64.value]
      cases value.negative with
      | true =>
        have flipped := rounds_neg magnitude
        rw [← neg_div, ← neg_mul] at flipped
        simpa using flipped
      | false => simpa using magnitude

end Decimal

end QuantForge
