import Mathlib.Algebra.Order.Field.Power
import Mathlib.Algebra.Order.Field.Rat
import Mathlib.Tactic.FieldSimp
import Mathlib.Tactic.Linarith
import Mathlib.Tactic.Positivity
import Mathlib.Tactic.Ring

namespace QuantForge.Binary64

/-- A nonnegative number as a significand of binary64 and its exponent: all of the
significand's bits are used unless the exponent is the least. -/
structure Writes (x : ℚ) (m : Nat) (e : Int) : Prop where
  value : x = m * 2 ^ e
  fits : m < 2 ^ 53
  least : -1074 ≤ e
  most : e ≤ 971
  normal : 2 ^ 52 ≤ m ∨ e = -1074

/-- A finite value of binary64. -/
def Finite (x : ℚ) : Prop := ∃ m e, Writes |x| m e

def EvenSignificand (x : ℚ) : Prop := ∃ m e, Writes |x| m e ∧ Even m

/-- `y` is the value of binary64 nearest to `x`, and of two nearest ones the one
with the even significand. -/
structure Rounds (x y : ℚ) : Prop where
  finite : Finite y
  nearest (z : ℚ) : Finite z → |x - y| ≤ |x - z|
  even (z : ℚ) : Finite z → |x - y| = |x - z| → z = y ∨ EvenSignificand y

/-- `q` is the integer nearest to `y`, and of two nearest ones the even one. -/
def RoundsInt (y : ℚ) (q : Nat) : Prop :=
  |y - q| < 1 / 2 ∨ |y - q| = 1 / 2 ∧ Even q

theorem finite_neg {x : ℚ} (h : Finite x) : Finite (-x) := by
  unfold Finite at h ⊢
  rwa [abs_neg]

theorem rounds_neg {x y : ℚ} (h : Rounds x y) : Rounds (-x) (-y) := by
  have flip (z : ℚ) : |-x - z| = |x - -z| := by
    rw [← abs_neg]
    congr 1
    ring
  constructor
  · exact finite_neg h.finite
  · intro z hz
    rw [flip, flip, neg_neg]
    exact h.nearest (-z) (finite_neg hz)
  · intro z hz heq
    rw [flip, flip, neg_neg] at heq
    rcases h.even (-z) (finite_neg hz) heq with same | ⟨m, e, hm, heven⟩
    · exact .inl (neg_eq_iff_eq_neg.mp same)
    · exact .inr ⟨m, e, by rwa [abs_neg], heven⟩

theorem rounds_zero : Rounds 0 0 := by
  have zero : Writes |(0 : ℚ)| 0 (-1074) := ⟨by simp, by decide, le_rfl, by decide, .inr rfl⟩
  constructor
  · exact ⟨0, -1074, zero⟩
  · intro z _
    simp
  · intro z _ _
    exact .inr ⟨0, -1074, zero, by decide⟩

section Integers

variable {y : ℚ} {q : Nat}

theorem roundsInt_half (h : RoundsInt y q) : |y - q| ≤ 1 / 2 := by
  rcases h with h | h
  · exact h.le
  · exact h.1.le

/-- Another integer is at least a half away. -/
theorem half_le (h : RoundsInt y q) {k : Nat} (differs : k ≠ q) : 1 / 2 ≤ |y - k| := by
  have apart : (1 : ℚ) ≤ |(q : ℚ) - k| := by
    have whole : (1 : Int) ≤ |(q : Int) - k| := Int.one_le_abs (by omega)
    exact_mod_cast whole
  have triangle : |(q : ℚ) - k| ≤ |y - q| + |y - k| := by
    rw [abs_sub_comm y q]
    exact abs_sub_le _ _ _
  have close := roundsInt_half h
  linarith

theorem roundsInt_nearest (h : RoundsInt y q) (k : Nat) : |y - q| ≤ |y - k| := by
  by_cases same : k = q
  · rw [same]
  · exact (roundsInt_half h).trans (half_le h same)

theorem roundsInt_even (h : RoundsInt y q) {k : Nat} (tie : |y - q| = |y - k|) :
    k = q ∨ Even q := by
  by_cases same : k = q
  · exact .inl same
  · rcases h with hclose | ⟨-, heven⟩
    · have far := half_le (.inl hclose) same
      linarith
    · exact .inr heven

/-- The nearest integer of a quotient, in integers. -/
theorem roundsInt_div {n d : Nat} (hd : 0 < d)
    (h : 2 * |(n : Int) - q * d| < d ∨ 2 * |(n : Int) - q * d| = d ∧ Even q) :
    RoundsInt (n / d) q := by
  have positive : (0 : ℚ) < d := by exact_mod_cast hd
  have distance : |(n : ℚ) / d - q| = (|(n : Int) - q * d| : Int) / d := by
    have split : (n : ℚ) / d - q = (n - q * d) / d := by field_simp
    rw [split, abs_div, abs_of_pos positive]
    push_cast
    rfl
  rw [RoundsInt, distance]
  rcases h with h | ⟨h, heven⟩
  · left
    rw [div_lt_div_iff₀ positive two_pos]
    have cast : (2 : ℚ) * (|(n : Int) - q * d| : Int) < d := by exact_mod_cast h
    linarith
  · right
    refine ⟨?_, heven⟩
    rw [div_eq_div_iff positive.ne' two_ne_zero]
    have cast : (2 : ℚ) * (|(n : Int) - q * d| : Int) = d := by exact_mod_cast h
    linarith

end Integers

section Scaled

variable {y : ℚ} {q : Nat} {e : Int}

theorem significand_bounds (low : 2 ^ 52 ≤ y) (high : y < 2 ^ 53) (h : RoundsInt y q) :
    2 ^ 52 ≤ q ∧ q ≤ 2 ^ 53 := by
  have close := abs_le.mp (roundsInt_half h)
  constructor
  · by_contra hlt
    have below : q + 1 ≤ 2 ^ 52 := by omega
    have cast : (q : ℚ) + 1 ≤ 2 ^ 52 := by exact_mod_cast below
    linarith
  · by_contra hlt
    have above : 2 ^ 53 + 1 ≤ q := by omega
    have cast : (2 : ℚ) ^ 53 + 1 ≤ q := by exact_mod_cast above
    linarith

/-- A rounded significand is one of binary64, or carries into the next power of
two. -/
theorem writes_scaled (low : 2 ^ 52 ≤ q) (high : q ≤ 2 ^ 53) (least : -1074 ≤ e)
    (most : e < 971) :
    ∃ m e', Writes |(q : ℚ) * 2 ^ e| m e' ∧ (Even q → Even m) := by
  have nonneg : |(q : ℚ) * 2 ^ e| = q * 2 ^ e := abs_of_nonneg (by positivity)
  rw [nonneg]
  rcases high.lt_or_eq with hlt | rfl
  · exact ⟨q, e, ⟨rfl, hlt, least, most.le, .inl low⟩, fun h => h⟩
  · refine ⟨2 ^ 52, e + 1, ⟨?_, by decide, by omega, by omega, .inl le_rfl⟩, fun _ => by decide⟩
    rw [zpow_add₀ two_ne_zero]
    push_cast
    ring

/-- From the least significand on, the values of binary64 are whole numbers of its
unit. -/
theorem finite_whole {z : ℚ} (hz : Finite z) (large : 2 ^ 52 * 2 ^ e ≤ z) :
    ∃ k : Nat, z = k * 2 ^ e := by
  obtain ⟨m, e', hm⟩ := hz
  have unit (i : Int) : (0 : ℚ) < 2 ^ i := by positivity
  have nonneg : 0 ≤ z := le_trans (by positivity) large
  have written := hm.value
  rw [abs_of_nonneg nonneg] at written
  have fits : (m : ℚ) < 2 ^ 53 := by exact_mod_cast hm.fits
  have coarser : e ≤ e' := by
    have smaller : (2 : ℚ) ^ 52 * 2 ^ e < 2 ^ 53 * 2 ^ e' :=
      calc (2 : ℚ) ^ 52 * 2 ^ e ≤ m * 2 ^ e' := by rw [← written]; exact large
        _ < 2 ^ 53 * 2 ^ e' := mul_lt_mul_of_pos_right fits (unit e')
    have doubled : (2 : ℚ) ^ e < 2 ^ (e' + 1) := by
      rw [zpow_add₀ two_ne_zero, zpow_one]
      linarith
    have exponents := (zpow_lt_zpow_iff_right₀ one_lt_two).mp doubled
    omega
  refine ⟨m * 2 ^ (e' - e).toNat, ?_⟩
  have split : (2 : ℚ) ^ e' = 2 ^ (e' - e).toNat * 2 ^ e := by
    rw [← zpow_natCast, Int.toNat_of_nonneg (by omega), ← zpow_add₀ two_ne_zero]
    congr 1
    omega
  rw [written, split]
  push_cast
  ring

/-- Rounding the significand to the nearest integer rounds to the nearest value of
binary64. -/
theorem rounds_scaled (low : 2 ^ 52 ≤ y) (high : y < 2 ^ 53) (h : RoundsInt y q)
    (least : -1074 ≤ e) (most : e < 971) : Rounds (y * 2 ^ e) (q * 2 ^ e) := by
  have unit : (0 : ℚ) < 2 ^ e := by positivity
  obtain ⟨hlow, hhigh⟩ := significand_bounds low high h
  obtain ⟨m, e', hwrites, hparity⟩ := writes_scaled hlow hhigh least most
  have distance (k : ℚ) : |y * 2 ^ e - k * 2 ^ e| = |y - k| * 2 ^ e := by
    rw [← sub_mul, abs_mul, abs_of_pos unit]
  have farther {z : ℚ} (small : z < 2 ^ 52 * 2 ^ e) :
      |y * 2 ^ e - q * 2 ^ e| < |y * 2 ^ e - z| := by
    have least : |y - q| * 2 ^ e ≤ |y - (2 ^ 52 : Nat)| * 2 ^ e :=
      mul_le_mul_of_nonneg_right (roundsInt_nearest h _) unit.le
    have above : (2 : ℚ) ^ 52 * 2 ^ e ≤ y * 2 ^ e := mul_le_mul_of_nonneg_right low unit.le
    have gap : |y - (2 ^ 52 : Nat)| * 2 ^ e = y * 2 ^ e - 2 ^ 52 * 2 ^ e := by
      rw [← sub_mul]
      congr 1
      push_cast
      exact abs_of_nonneg (by linarith)
    rw [distance, abs_of_nonneg (by linarith : 0 ≤ y * 2 ^ e - z)]
    linarith
  constructor
  · exact ⟨m, e', hwrites⟩
  · intro z hz
    by_cases large : 2 ^ 52 * 2 ^ e ≤ z
    · obtain ⟨k, rfl⟩ := finite_whole hz large
      rw [distance, distance]
      exact mul_le_mul_of_nonneg_right (roundsInt_nearest h k) unit.le
    · exact (farther (not_le.mp large)).le
  · intro z hz tie
    by_cases large : 2 ^ 52 * 2 ^ e ≤ z
    · obtain ⟨k, rfl⟩ := finite_whole hz large
      rw [distance, distance] at tie
      rcases roundsInt_even h (mul_right_cancel₀ unit.ne' tie) with rfl | heven
      · exact .inl rfl
      · exact .inr ⟨m, e', hwrites, hparity heven⟩
    · exact absurd tie (farther (not_le.mp large)).ne

end Scaled

end QuantForge.Binary64
