import Mathlib.Algebra.Order.Round
import Mathlib.Algebra.Order.Archimedean.Basic
import Mathlib.Data.Nat.Find
import Mathlib.Data.Rat.Floor
import Mathlib.Tactic.Linarith
import Mathlib.Tactic.Positivity
import Mathlib.Tactic.FieldSimp
import Mathlib.Tactic.NormNum

namespace QuantForge.Rounding

section RoundEven

variable {K : Type*} [Field K] [LinearOrder K] [IsStrictOrderedRing K] [FloorRing K]

/-- The nearest integer, and the even one of two that are as near. -/
def roundEven (x : K) : ℤ :=
  if round x - x = 1 / 2 ∧ round x % 2 = 1 then round x - 1 else round x

/-- What rounds to `n` or beyond: all above the midpoint before `n`, which itself belongs
to the even neighbour. -/
theorem le_roundEven_iff {x : K} {n : ℤ} :
    n ≤ roundEven x ↔ (n : K) - 1 / 2 < x ∨ (x = n - 1 / 2 ∧ n % 2 = 0) := by
  have low : (round x : K) ≤ x + 1 / 2 := by
    rw [round_eq]
    exact Int.floor_le _
  have high : x + 1 / 2 < round x + 1 := by
    rw [round_eq]
    exact Int.lt_floor_add_one _
  have reaches : n ≤ round x ↔ (n : K) - 1 / 2 ≤ x := by
    rw [round_eq, Int.le_floor, sub_le_iff_le_add]
  unfold roundEven
  split_ifs with tie
  · obtain ⟨half, odd⟩ := tie
    have hx : x = round x - 1 / 2 := by linarith
    constructor
    · intro h
      left
      have : (n : K) + 1 ≤ round x := by exact_mod_cast (show n + 1 ≤ round x by omega)
      linarith
    · rintro (h | ⟨h, heven⟩)
      · have : (n : K) < round x := by linarith
        have : n < round x := by exact_mod_cast this
        omega
      · have : (n : K) = round x := by linarith
        have : n = round x := by exact_mod_cast this
        omega
  · rw [reaches]
    constructor
    · intro h
      rcases h.lt_or_eq with h | h
      · exact .inl h
      · right
        have hn : n = round x := by
          have below : n ≤ round x := reaches.mpr h.le
          have above : (round x : K) ≤ n := by linarith
          have : round x ≤ n := by exact_mod_cast above
          omega
        subst hn
        refine ⟨h.symm, ?_⟩
        by_contra hodd
        exact tie ⟨by linarith, by omega⟩
    · rintro (h | ⟨h, -⟩)
      · exact h.le
      · exact h.ge

theorem roundEven_mono {x y : K} (h : x ≤ y) : roundEven x ≤ roundEven y := by
  rw [le_roundEven_iff]
  rcases le_roundEven_iff.mp (le_refl (roundEven x)) with hx | ⟨hx, heven⟩
  · exact .inl (hx.trans_le h)
  · rcases h.lt_or_eq with h | h
    · exact .inl (hx ▸ h)
    · exact .inr ⟨h ▸ hx, heven⟩

@[simp] theorem roundEven_intCast (n : ℤ) : roundEven (n : K) = n := by
  simp [roundEven]

@[simp] theorem roundEven_zero : roundEven (0 : K) = 0 := by
  simpa using roundEven_intCast (K := K) 0

theorem abs_sub_roundEven_le (x : K) : |x - roundEven x| ≤ 1 / 2 := by
  unfold roundEven
  split_ifs with tie
  · rw [abs_le]
    push_cast
    constructor <;> linarith [tie.1]
  · exact abs_sub_round x

theorem le_roundEven_neg_iff {x : K} {n : ℤ} : n ≤ roundEven (-x) ↔ roundEven x ≤ -n := by
  have flip : n ≤ roundEven (-x) ↔ ¬ 1 - n ≤ roundEven x := by
    rw [le_roundEven_iff, le_roundEven_iff]
    push_cast
    rcases lt_trichotomy x (1 / 2 - n) with h | h | h
    · refine iff_of_true (.inl (by linarith)) ?_
      rintro (h' | ⟨h', -⟩) <;> linarith
    · constructor
      · rintro (h' | ⟨-, heven⟩)
        · linarith
        · rintro (h' | ⟨-, hodd⟩)
          · linarith
          · omega
      · intro hnot
        refine .inr ⟨by linarith, ?_⟩
        by_contra hodd
        exact hnot (.inr ⟨by linarith, by omega⟩)
    · refine iff_of_false ?_ (not_not.mpr (.inl (by linarith)))
      rintro (h' | ⟨h', -⟩) <;> linarith
  rw [flip]
  omega

theorem roundEven_neg (x : K) : roundEven (-x) = -roundEven x := by
  apply le_antisymm
  · have := le_roundEven_neg_iff.mp (le_refl (roundEven (-x)))
    omega
  · exact le_roundEven_neg_iff.mpr (by omega)

theorem abs_roundEven (x : K) : |roundEven x| = roundEven |x| := by
  rcases le_total 0 x with h | h
  · have hr : 0 ≤ roundEven x := by simpa using roundEven_mono h
    rw [abs_of_nonneg h, abs_of_nonneg hr]
  · have hr : roundEven x ≤ 0 := by simpa using roundEven_mono h
    rw [abs_of_nonpos h, abs_of_nonpos hr, roundEven_neg]

end RoundEven

/-- Numbers of a bounded mantissa and a bounded scale: `m / base ^ s` with `|m| < limit` and
`s ≤ scales`. The limit is even, so that the last midpoint below it carries, and a carry
that drops a digit lands beyond the largest mantissa. -/
structure Format where
  base : ℕ
  limit : ℕ
  scales : ℕ
  one_le : 1 ≤ base
  limit_pos : 0 < limit
  even : limit % 2 = 0
  carries : limit ≤ base * roundEven (((limit : ℚ) - 1 / 2) / base)

namespace Format

variable (F : Format)

/-- `q` is a number of the format. -/
def Holds (q : ℚ) : Prop := ∃ (m : ℤ) (s : ℕ), |m| < F.limit ∧ s ≤ F.scales ∧ q = m / F.base ^ s

/-- The digits of `q` at the scale `s` stay below the limit, also once they are rounded. -/
def Fits (q : ℚ) (s : ℕ) : Prop := |q| * F.base ^ s + 1 / 2 < F.limit

instance (q : ℚ) (s : ℕ) : Decidable (F.Fits q s) := inferInstanceAs (Decidable (_ < _))

/-- The most places the digits of `q` leave room for. -/
def places (q : ℚ) : ℕ := Nat.findGreatest (F.Fits q) F.scales

def units (q : ℚ) : ℤ := roundEven (q * F.base ^ F.places q)

/-- `q` has at most `s` places. -/
def OnGrid (s : ℕ) (q : ℚ) : Prop := ∃ k : ℤ, q = k / F.base ^ s

/-- `q` rounded to the most places it leaves room for. -/
def rounded (q : ℚ) : ℚ := F.units q / F.base ^ F.places q

variable {F}

theorem power_pos (s : ℕ) : (0 : ℚ) < F.base ^ s := by
  have : (1 : ℚ) ≤ F.base := by exact_mod_cast F.one_le
  positivity

theorem power_le {s t : ℕ} (h : s ≤ t) : (F.base : ℚ) ^ s ≤ F.base ^ t :=
  pow_le_pow_right₀ (by exact_mod_cast F.one_le) h

theorem fits_iff {q : ℚ} {s : ℕ} :
    F.Fits q s ↔ |roundEven (q * F.base ^ s)| < F.limit := by
  have magnitude : |q * F.base ^ s| = |q| * F.base ^ s := by
    rw [abs_mul, abs_of_pos (power_pos s)]
  have even := F.even
  rw [abs_roundEven, magnitude, ← not_le, le_roundEven_iff, Fits]
  push_cast
  constructor
  · rintro h (h' | ⟨h', -⟩) <;> linarith
  · intro h
    by_contra hfits
    rcases (not_lt.mp hfits).lt_or_eq with h' | h'
    · exact h (.inl (by linarith))
    · exact h (.inr ⟨by linarith, by omega⟩)

theorem Fits.of_le {q : ℚ} {s t : ℕ} (hst : s ≤ t) (h : F.Fits q t) : F.Fits q s := by
  have : |q| * F.base ^ s ≤ |q| * F.base ^ t :=
    mul_le_mul_of_nonneg_left (power_le hst) (abs_nonneg q)
  unfold Fits at *
  linarith

theorem fits_neg {q : ℚ} {s : ℕ} : F.Fits (-q) s ↔ F.Fits q s := by
  rw [Fits, Fits, abs_neg]

theorem Fits.of_abs_le {x y : ℚ} {s : ℕ} (hxy : |x| ≤ |y|) (h : F.Fits y s) : F.Fits x s := by
  have : |x| * F.base ^ s ≤ |y| * F.base ^ s := mul_le_mul_of_nonneg_right hxy (power_pos s).le
  unfold Fits at *
  linarith

theorem places_le (q : ℚ) : F.places q ≤ F.scales := Nat.findGreatest_le _

theorem fits_places {q : ℚ} (h : F.Fits q 0) : F.Fits q (F.places q) :=
  Nat.findGreatest_spec (Nat.zero_le _) h

theorem le_places {q : ℚ} {s : ℕ} (hs : s ≤ F.scales) (h : F.Fits q s) : s ≤ F.places q :=
  Nat.le_findGreatest hs h

theorem not_fits_of_places_lt {q : ℚ} {s : ℕ} (h : F.places q < s) (hs : s ≤ F.scales) :
    ¬ F.Fits q s :=
  Nat.findGreatest_is_greatest h hs

theorem abs_units_lt {q : ℚ} (h : F.Fits q 0) : |F.units q| < F.limit :=
  fits_iff.mp (fits_places h)

theorem rounded_holds {q : ℚ} (h : F.Fits q 0) : F.Holds (F.rounded q) :=
  ⟨F.units q, F.places q, abs_units_lt h, places_le q, rfl⟩

theorem Holds.fits_at {m : ℤ} {s : ℕ} (hm : |m| < F.limit) :
    F.Fits ((m : ℚ) / F.base ^ s) s := by
  rw [fits_iff, div_mul_cancel₀ _ (power_pos s).ne', roundEven_intCast]
  exact hm

theorem Holds.fits {q : ℚ} (h : F.Holds q) : F.Fits q 0 := by
  obtain ⟨m, s, hm, -, rfl⟩ := h
  exact (Holds.fits_at hm).of_le (Nat.zero_le s)

theorem Holds.neg {q : ℚ} (h : F.Holds q) : F.Holds (-q) := by
  obtain ⟨m, s, hm, hs, rfl⟩ := h
  exact ⟨-m, s, by rwa [abs_neg], hs, by push_cast; ring⟩

theorem OnGrid.add {s : ℕ} {x y : ℚ} (hx : F.OnGrid s x) (hy : F.OnGrid s y) :
    F.OnGrid s (x + y) := by
  obtain ⟨i, rfl⟩ := hx
  obtain ⟨j, rfl⟩ := hy
  exact ⟨i + j, by push_cast; ring⟩

theorem OnGrid.neg {s : ℕ} {x : ℚ} (hx : F.OnGrid s x) : F.OnGrid s (-x) := by
  obtain ⟨i, rfl⟩ := hx
  exact ⟨-i, by push_cast; ring⟩

theorem OnGrid.of_le {s t : ℕ} {x : ℚ} (hst : s ≤ t) (hx : F.OnGrid s x) : F.OnGrid t x := by
  obtain ⟨i, rfl⟩ := hx
  refine ⟨i * F.base ^ (t - s), ?_⟩
  rw [div_eq_div_iff (power_pos s).ne' (power_pos t).ne', ← pow_mul_pow_sub _ hst]
  push_cast
  ring

theorem rounded_onGrid (q : ℚ) : F.OnGrid (F.places q) (F.rounded q) := ⟨F.units q, rfl⟩

/-- A number that has no more places than it leaves room for is its own rounding. -/
theorem rounded_eq_self_of_onGrid {q : ℚ} (h : F.OnGrid (F.places q) q) : F.rounded q = q := by
  obtain ⟨k, hk⟩ := h
  have hwhole : q * F.base ^ F.places q = k := by
    rw [← eq_div_iff (power_pos _).ne']
    exact hk
  rw [rounded, units, hwhole, roundEven_intCast]
  exact hk.symm

/-- Rounding adds no places. -/
theorem OnGrid.rounded {s : ℕ} {q : ℚ} (h : F.OnGrid s q) : F.OnGrid s (F.rounded q) := by
  rcases le_total s (F.places q) with hle | hle
  · rw [rounded_eq_self_of_onGrid (h.of_le hle)]
    exact h
  · exact (rounded_onGrid q).of_le hle

/-- A number of the format is its own rounding. -/
theorem rounded_eq_self {q : ℚ} (h : F.Holds q) : F.rounded q = q := by
  obtain ⟨m, s, hm, hs, rfl⟩ := h
  have hgrid : F.OnGrid s ((m : ℚ) / F.base ^ s) := ⟨m, rfl⟩
  exact rounded_eq_self_of_onGrid (hgrid.of_le (le_places hs (Holds.fits_at hm)))

theorem holds_iff {q : ℚ} (h : F.Fits q 0) : F.Holds q ↔ F.rounded q = q :=
  ⟨rounded_eq_self, fun heq => heq ▸ rounded_holds h⟩

instance (q : ℚ) : Decidable (F.Holds q) :=
  decidable_of_iff (F.Fits q 0 ∧ F.rounded q = q)
    ⟨fun ⟨h, heq⟩ => (holds_iff h).mpr heq, fun h => ⟨h.fits, rounded_eq_self h⟩⟩

theorem places_neg {q : ℚ} : F.places (-q) = F.places q := by
  have : F.Fits (-q) = F.Fits q := by
    funext s
    exact propext fits_neg
  simp only [places, this]

theorem rounded_neg (q : ℚ) : F.rounded (-q) = -F.rounded q := by
  rw [rounded, rounded, units, units, places_neg, neg_mul, roundEven_neg]
  push_cast
  ring

theorem abs_sub_rounded_le (q : ℚ) : |q - F.rounded q| ≤ 1 / 2 / F.base ^ F.places q := by
  have hpos := power_pos (F := F) (F.places q)
  have hscaled : (q - F.rounded q) * F.base ^ F.places q =
      q * F.base ^ F.places q - F.units q := by
    rw [rounded, sub_mul, div_mul_cancel₀ _ hpos.ne']
  rw [le_div_iff₀ hpos]
  calc
    |q - F.rounded q| * F.base ^ F.places q = |(q - F.rounded q) * F.base ^ F.places q| := by
      rw [abs_mul, abs_of_pos hpos]
    _ ≤ 1 / 2 := by
      rw [hscaled]
      exact abs_sub_roundEven_le _

theorem rounded_nonneg {q : ℚ} (h : 0 ≤ q) : 0 ≤ F.rounded q := by
  have hunits : 0 ≤ F.units q := by
    have := roundEven_mono (mul_nonneg h (power_pos (F := F) (F.places q)).le)
    rwa [roundEven_zero] at this
  exact div_nonneg (by exact_mod_cast hunits) (power_pos _).le

/-- A value is rounded no lower than the limit at one place more than it leaves room for. -/
private theorem limit_le_rounded {q : ℚ} (h0 : 0 ≤ q) (h : F.places q < F.scales) :
    (F.limit : ℚ) ≤ F.rounded q * F.base ^ (F.places q + 1) := by
  have hpos := power_pos (F := F) (F.places q)
  have hbase : (0 : ℚ) < F.base := by exact_mod_cast F.one_le
  have full : (F.limit : ℚ) ≤ q * F.base ^ (F.places q + 1) + 1 / 2 := by
    have := not_fits_of_places_lt (Nat.lt_succ_self _) h
    rwa [Fits, not_lt, abs_of_nonneg h0] at this
  have hcarry : roundEven (((F.limit : ℚ) - 1 / 2) / F.base) ≤ F.units q := by
    apply roundEven_mono
    rw [div_le_iff₀ hbase, mul_assoc, ← pow_succ]
    linarith
  have hlimit : (F.limit : ℤ) ≤ F.base * F.units q :=
    F.carries.trans (mul_le_mul_of_nonneg_left hcarry (by positivity))
  have hunits : F.rounded q * F.base ^ (F.places q + 1) = F.base * F.units q := by
    rw [rounded, pow_succ, ← mul_assoc, div_mul_cancel₀ _ hpos.ne', mul_comm]
  rw [hunits]
  exact_mod_cast hlimit

private theorem rounded_mono_of_nonneg {x y : ℚ} (h0 : 0 ≤ x) (hxy : x ≤ y)
    (hy : F.Fits y 0) : F.rounded x ≤ F.rounded y := by
  have habs : |x| ≤ |y| := abs_le_abs_of_nonneg h0 hxy
  have hx : F.Fits x 0 := hy.of_abs_le habs
  have hle : F.places y ≤ F.places x :=
    le_places (places_le y) ((fits_places hy).of_abs_le habs)
  rcases hle.lt_or_eq with hlt | heq
  · -- what `x` leaves room for is below the limit where `y` already carried
    have hbelow := limit_le_rounded (h0.trans hxy) (hlt.trans_le (places_le x))
    have hunits : (F.units x : ℚ) < F.limit := by
      exact_mod_cast (le_abs_self _).trans_lt (abs_units_lt hx)
    have hpos := power_pos (F := F) (F.places y + 1)
    have hscale := power_le (F := F) (Nat.succ_le_of_lt hlt)
    have hrounded := rounded_nonneg (F := F) h0
    have : F.rounded x * F.base ^ (F.places y + 1) ≤ F.units x := by
      calc
        F.rounded x * F.base ^ (F.places y + 1) ≤ F.rounded x * F.base ^ F.places x :=
          mul_le_mul_of_nonneg_left hscale hrounded
        _ = F.units x := div_mul_cancel₀ _ (power_pos _).ne'
    apply le_of_mul_le_mul_right _ hpos
    linarith
  · have hunits : F.units x ≤ F.units y := by
      unfold units
      rw [heq]
      exact roundEven_mono (mul_le_mul_of_nonneg_right hxy (power_pos _).le)
    unfold rounded
    rw [heq]
    exact div_le_div_of_nonneg_right (by exact_mod_cast hunits) (power_pos _).le

/-- Rounding keeps the order. -/
theorem rounded_mono {x y : ℚ} (hx : F.Fits x 0) (hy : F.Fits y 0) (hxy : x ≤ y) :
    F.rounded x ≤ F.rounded y := by
  rcases le_total 0 x with h0 | h0
  · exact rounded_mono_of_nonneg h0 hxy hy
  · have hneg : F.rounded x ≤ 0 := by
      have := rounded_nonneg (F := F) (neg_nonneg.mpr h0)
      rwa [rounded_neg, neg_nonneg] at this
    rcases le_total 0 y with hy0 | hy0
    · exact hneg.trans (rounded_nonneg hy0)
    · have := rounded_mono_of_nonneg (neg_nonneg.mpr hy0) (neg_le_neg hxy) (fits_neg.mpr hx)
      rwa [rounded_neg, rounded_neg, neg_le_neg_iff] at this

/-- What rounding `q` changes. -/
def error (F : Format) (q : ℚ) : ℚ := |q - F.rounded q|

theorem error_nonneg (q : ℚ) : 0 ≤ F.error q := abs_nonneg _

/-- Rounding changes at most half of the last place there is room for. -/
theorem error_le (q : ℚ) : F.error q ≤ 1 / 2 / F.base ^ F.places q := abs_sub_rounded_le q

theorem rounded_le_add (q : ℚ) : F.rounded q ≤ q + F.error q := by
  have := (abs_le.mp (le_refl (F.error q))).1
  linarith

theorem sub_le_rounded (q : ℚ) : q - F.error q ≤ F.rounded q := by
  have := (abs_le.mp (le_refl (F.error q))).2
  linarith

end Format

end QuantForge.Rounding
