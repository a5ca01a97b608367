import QuantForge.Math.Rounding

namespace QuantForge.Rounding

/-- Which of two whole numbers a value midway between them is rounded to. -/
inductive Ties
  | even
  | away
  deriving DecidableEq

namespace Ties

/-- Of the two numbers next to `x`, a tie is rounded to `m`. -/
def Goes (ties : Ties) (x : ℚ) (m : ℤ) : Prop :=
  match ties with
  | even => m % 2 = 0
  | away => |x| < |(m : ℚ)|

/-- `x` is rounded to `m`. -/
def Rounds (ties : Ties) (x : ℚ) (m : ℤ) : Prop :=
  |x - m| < 1 / 2 ∨ (|x - m| = 1 / 2 ∧ ties.Goes x m)

variable {ties : Ties} {x : ℚ} {m n : ℤ}

theorem Rounds.le (h : ties.Rounds x m) : |x - m| ≤ 1 / 2 := by
  rcases h with h | ⟨h, -⟩
  · exact h.le
  · exact h.le

theorem eq_of_near (hm : |x - m| ≤ 1 / 2) (hn : |x - n| < 1 / 2) : m = n := by
  obtain ⟨hlow, hhigh⟩ := abs_le.mp hm
  obtain ⟨hlow', hhigh'⟩ := abs_lt.mp hn
  have hlt : (m : ℚ) < n + 1 := by linarith
  have hgt : (n : ℚ) < m + 1 := by linarith
  have : m < n + 1 := by exact_mod_cast hlt
  have : n < m + 1 := by exact_mod_cast hgt
  omega

/-- Two numbers as near as a tie are the ones around it. -/
theorem eq_succ_of_tie (hm : |x - m| = 1 / 2) (hn : |x - n| = 1 / 2) (hne : m ≠ n) :
    (n = m + 1 ∧ x = m + 1 / 2) ∨ (m = n + 1 ∧ x = n + 1 / 2) := by
  rcases eq_or_eq_neg_of_abs_eq hm with hm | hm
  · rcases eq_or_eq_neg_of_abs_eq hn with hn | hn
    · have : (m : ℚ) = n := by linarith
      exact absurd (by exact_mod_cast this) hne
    · left
      have : (n : ℚ) = m + 1 := by linarith
      exact ⟨by exact_mod_cast this, by linarith⟩
  · rcases eq_or_eq_neg_of_abs_eq hn with hn | hn
    · right
      have : (m : ℚ) = n + 1 := by linarith
      exact ⟨by exact_mod_cast this, by linarith⟩
    · have : (m : ℚ) = n := by linarith
      exact absurd (by exact_mod_cast this) hne

theorem goes_one (hm : ties.Goes (m + 1 / 2) m) : ¬ ties.Goes (m + 1 / 2) (m + 1) := by
  cases ties with
  | even =>
    have hm : m % 2 = 0 := hm
    show ¬ (m + 1) % 2 = 0
    omega
  | away =>
    have hm : |(m : ℚ) + 1 / 2| < |(m : ℚ)| := hm
    show ¬ |(m : ℚ) + 1 / 2| < |((m + 1 : ℤ) : ℚ)|
    rcases le_or_gt 0 m with hsign | hsign
    · have h0 : (0 : ℚ) ≤ m := by exact_mod_cast hsign
      rw [abs_of_nonneg (by linarith), abs_of_nonneg h0] at hm
      linarith
    · have h0 : (m : ℚ) + 1 ≤ 0 := by exact_mod_cast hsign
      push_cast
      rw [abs_of_nonpos (by linarith), abs_of_nonpos h0]
      linarith

theorem Rounds.unique (hm : ties.Rounds x m) (hn : ties.Rounds x n) : m = n := by
  by_contra hne
  have tie : |x - m| = 1 / 2 ∧ |x - n| = 1 / 2 := by
    constructor
    · exact hm.le.lt_or_eq.resolve_left fun h => hne (eq_of_near hn.le h).symm
    · exact hn.le.lt_or_eq.resolve_left fun h => hne (eq_of_near hm.le h)
  have hgm : ties.Goes x m := (hm.resolve_left tie.1.not_lt).2
  have hgn : ties.Goes x n := (hn.resolve_left tie.2.not_lt).2
  rcases eq_succ_of_tie tie.1 tie.2 hne with ⟨rfl, rfl⟩ | ⟨rfl, rfl⟩
  · exact goes_one hgm hgn
  · exact goes_one hgn hgm

theorem roundEven_rounds (x : ℚ) : even.Rounds x (roundEven x) := by
  rcases (abs_sub_roundEven_le x).lt_or_eq with h | h
  · exact .inl h
  · refine .inr ⟨h, ?_⟩
    show roundEven x % 2 = 0
    rcases eq_or_eq_neg_of_abs_eq h with hx | hx
    · by_contra hodd
      have hnext : roundEven x + 1 ≤ roundEven x := by
        rw [le_roundEven_iff]
        right
        push_cast
        exact ⟨by linarith, by omega⟩
      omega
    · rcases le_roundEven_iff.mp (le_refl (roundEven x)) with h' | ⟨-, heven⟩
      · linarith
      · exact heven

/-- Both ways to round agree, unless a tie goes to an odd number. -/
theorem Rounds.eq_roundEven_iff (h : ties.Rounds x m) :
    m = roundEven x ↔ (|x - m| = 1 / 2 → m % 2 = 0) := by
  constructor
  · rintro rfl htie
    exact ((roundEven_rounds x).resolve_left htie.not_lt).2
  · intro heven
    have hm : even.Rounds x m := by
      rcases h with h | ⟨h, -⟩
      · exact .inl h
      · exact .inr ⟨h, heven h⟩
    exact hm.unique (roundEven_rounds x)

/-- No whole number is nearer than the rounded one. -/
theorem abs_sub_roundEven_le_int (x : ℚ) (k : ℤ) : |x - roundEven x| ≤ |x - k| := by
  rcases lt_or_ge |x - k| (1 / 2) with h | h
  · rw [eq_of_near (abs_sub_roundEven_le x) h]
  · exact (abs_sub_roundEven_le x).trans h

/-- One that is as near is odd, and the rounded one even. -/
theorem roundEven_tie {k : ℤ} (h : |x - k| = |x - roundEven x|) (hne : k ≠ roundEven x) :
    roundEven x % 2 = 0 ∧ k % 2 = 1 := by
  have half : |x - roundEven x| = 1 / 2 := by
    rcases (abs_sub_roundEven_le x).lt_or_eq with h' | h'
    · exact absurd (eq_of_near (h.trans_le h'.le) h') hne
    · exact h'
  have heven : roundEven x % 2 = 0 := ((roundEven_rounds x).resolve_left half.not_lt).2
  rcases eq_succ_of_tie (h.trans half) half hne with ⟨hnext, -⟩ | ⟨hnext, -⟩
  · exact ⟨heven, by omega⟩
  · exact ⟨heven, by omega⟩

end Ties

namespace Format

/-- `x` is a number of the format, no other is nearer to `q`, and where one is as near, the
last digit in which they differ is even in `x`. -/
structure Nearest (F : Format) (q x : ℚ) : Prop where
  holds : F.Holds x
  least {y : ℚ} : F.Holds y → |q - x| ≤ |q - y|
  even {y : ℚ} : F.Holds y → |q - y| = |q - x| → y ≠ x →
    ∃ (s : ℕ) (m n : ℤ), x = m / F.base ^ s ∧ y = n / F.base ^ s ∧ m % 2 = 0 ∧ n % 2 = 1

variable {F : Format} {q x y : ℚ}

theorem mul_power {m : ℤ} {s t : ℕ} (h : s ≤ t) :
    (m : ℚ) / F.base ^ s = ((m * F.base ^ (t - s) : ℤ) : ℚ) / F.base ^ t := by
  rw [div_eq_div_iff (power_pos s).ne' (power_pos t).ne', ← pow_mul_pow_sub _ h]
  push_cast
  ring

/-- An even number of units stays even at more places. -/
theorem even_of_le {m n : ℤ} {s t : ℕ} (h : s ≤ t) (hm : m % 2 = 0)
    (heq : (m : ℚ) / F.base ^ s = n / F.base ^ t) : n % 2 = 0 := by
  rw [mul_power h, div_left_inj' (power_pos t).ne'] at heq
  have heq : m * F.base ^ (t - s) = n := by exact_mod_cast heq
  rw [← heq, Int.mul_emod, hm]
  simp

theorem Nearest.unique (hx : F.Nearest q x) (hy : F.Nearest q y) : x = y := by
  by_contra hne
  have same : |q - x| = |q - y| := le_antisymm (hx.least hy.holds) (hy.least hx.holds)
  obtain ⟨s, m, n, hxm, hyn, hm, hn⟩ := hx.even hy.holds same.symm (Ne.symm hne)
  obtain ⟨t, m', n', hym, hxn, hm', hn'⟩ := hy.even hx.holds same hne
  rcases le_total s t with h | h
  · have := even_of_le h hm (hxm.symm.trans hxn)
    omega
  · have := even_of_le h hm' (hym.symm.trans hyn)
    omega

/-- The first number of units that a value carries to which does not fit one place more. -/
def carry (F : Format) : ℤ := roundEven (((F.limit : ℚ) - 1 / 2) / F.base)

/-- `q` is above the largest number with one place more than it leaves room for, and nearer to
that than to the next number that fits. -/
def Gap (F : Format) (q : ℚ) : Prop :=
  F.places q < F.scales ∧
    2 * (|q| * F.base ^ (F.places q + 1)) < (F.limit - 1) + F.base * F.carry

instance (F : Format) (q : ℚ) : Decidable (F.Gap q) := inferInstanceAs (Decidable (_ ∧ _))

theorem limit_le_carry : (F.limit : ℚ) ≤ F.base * F.carry := by
  exact_mod_cast F.carries

theorem scaled_abs (s : ℕ) : |q| * F.base ^ s = |q * F.base ^ s| := by
  rw [abs_mul, abs_of_pos (power_pos s)]

theorem abs_mul_power (s : ℕ) (a : ℚ) : |q - a / F.base ^ s| * F.base ^ s = |q * F.base ^ s - a| := by
  rw [scaled_abs, sub_mul, div_mul_cancel₀ _ (power_pos s).ne']

/-- On the places there is room for, no number is nearer than the rounded one. -/
theorem rounded_least_onGrid (hy : F.OnGrid (F.places q) y) : |q - F.rounded q| ≤ |q - y| := by
  obtain ⟨k, rfl⟩ := hy
  apply le_of_mul_le_mul_right _ (power_pos (F := F) (F.places q))
  rw [rounded, abs_mul_power, abs_mul_power]
  exact Ties.abs_sub_roundEven_le_int _ k

theorem rounded_even_onGrid (hy : F.OnGrid (F.places q) y) (h : |q - y| = |q - F.rounded q|)
    (hne : y ≠ F.rounded q) :
    ∃ (s : ℕ) (m n : ℤ), F.rounded q = m / F.base ^ s ∧ y = n / F.base ^ s ∧
      m % 2 = 0 ∧ n % 2 = 1 := by
  obtain ⟨k, rfl⟩ := hy
  refine ⟨F.places q, F.units q, k, rfl, rfl, ?_⟩
  apply Ties.roundEven_tie
  · rw [← abs_mul_power, ← abs_mul_power, h]
    rfl
  · rintro rfl
    exact hne rfl

/-- A number of more places than `q` leaves room for is no larger than the largest one. -/
theorem le_of_not_onGrid (hy : F.Holds y) (h : ¬ F.OnGrid (F.places q) y) :
    F.places q < F.scales ∧ |y| * F.base ^ (F.places q + 1) ≤ F.limit - 1 := by
  obtain ⟨m, s, hm, hs, rfl⟩ := hy
  have hmore : F.places q < s := by
    by_contra hle
    have hgrid : F.OnGrid s ((m : ℚ) / F.base ^ s) := ⟨m, rfl⟩
    exact h (hgrid.of_le (not_lt.mp hle))
  have hlargest : |m| ≤ (F.limit : ℤ) - 1 := by omega
  refine ⟨hmore.trans_le hs, ?_⟩
  calc
    |(m : ℚ) / F.base ^ s| * F.base ^ (F.places q + 1)
        ≤ |(m : ℚ) / F.base ^ s| * F.base ^ s :=
      mul_le_mul_of_nonneg_left (power_le hmore) (abs_nonneg _)
    _ = |(m : ℚ)| := by rw [scaled_abs, div_mul_cancel₀ _ (power_pos s).ne']
    _ ≤ F.limit - 1 := by exact_mod_cast hlargest

theorem scaled_onGrid (k : ℤ) :
    |q - k / F.base ^ F.places q| * F.base ^ (F.places q + 1) =
      |q * F.base ^ (F.places q + 1) - F.base * k| := by
  rw [← abs_mul_power (F.places q + 1) ((F.base : ℚ) * k)]
  congr 3
  rw [div_eq_div_iff (power_pos _).ne' (power_pos _).ne', pow_succ]
  ring

/-- Where there is no room for another place, the value is at the carry or rounds beyond it. -/
theorem carry_le_units (hq : 0 ≤ q) (h : F.places q < F.scales) : F.carry ≤ F.units q := by
  have hbase : (0 : ℚ) < F.base := by exact_mod_cast F.one_le
  have full := not_fits_of_places_lt (Nat.lt_succ_self _) h
  rw [Fits, not_lt, abs_of_nonneg hq, Nat.succ_eq_add_one, pow_succ] at full
  apply roundEven_mono
  rw [div_le_iff₀ hbase, mul_assoc]
  linarith

private theorem not_nearest_of_gap (hq : 0 ≤ q) (hgap : F.Gap q)
    (hy : F.OnGrid (F.places q) y) : ¬ F.Nearest q y := by
  intro hnearest
  obtain ⟨hroom, hgap⟩ := hgap
  have hpos := power_pos (F := F) (F.places q + 1)
  have hlimit := F.limit_pos
  rw [abs_of_nonneg hq] at hgap
  set largest : ℚ := ((F.limit - 1 : ℤ) : ℚ) / F.base ^ (F.places q + 1) with hlargest
  have holds : F.Holds largest :=
    ⟨F.limit - 1, F.places q + 1, by rw [abs_of_nonneg] <;> omega, hroom, rfl⟩
  have hover : (F.limit : ℚ) - 1 / 2 ≤ q * F.base ^ (F.places q + 1) := by
    have full := not_fits_of_places_lt (Nat.lt_succ_self _) hroom
    rw [Fits, not_lt, abs_of_nonneg hq, Nat.succ_eq_add_one] at full
    linarith
  have hcarry : (F.carry : ℚ) ≤ F.units q := by exact_mod_cast carry_le_units hq hroom
  have hbase : (F.base : ℚ) * F.carry ≤ F.base * F.units q :=
    mul_le_mul_of_nonneg_left hcarry (by positivity)
  have near : |q - largest| * F.base ^ (F.places q + 1) =
      q * F.base ^ (F.places q + 1) - (F.limit - 1) := by
    rw [hlargest, abs_mul_power]
    push_cast
    exact abs_of_nonneg (by linarith)
  have far : F.base * F.units q - q * F.base ^ (F.places q + 1) ≤
      |q - F.rounded q| * F.base ^ (F.places q + 1) := by
    rw [rounded, scaled_onGrid, abs_sub_comm]
    exact le_abs_self _
  have hle : |q - F.rounded q| ≤ |q - largest| :=
    (rounded_least_onGrid hy).trans (hnearest.least holds)
  have := mul_le_mul_of_nonneg_right hle hpos.le
  linarith

/-- Outside the gap a number with another place is no nearer than the carry. -/
private theorem carry_nearer (hq : 0 ≤ q) (hgap : ¬ F.Gap q) (hroom : F.places q < F.scales)
    (hy : |y| * F.base ^ (F.places q + 1) ≤ F.limit - 1) :
    |q - F.rounded q| * F.base ^ (F.places q + 1) ≤
        q * F.base ^ (F.places q + 1) - (F.limit - 1) ∧
      q * F.base ^ (F.places q + 1) - (F.limit - 1) ≤
        q * F.base ^ (F.places q + 1) - y * F.base ^ (F.places q + 1) ∧
      q * F.base ^ (F.places q + 1) - y * F.base ^ (F.places q + 1) ≤
        |q - y| * F.base ^ (F.places q + 1) := by
  have hpos := power_pos (F := F) (F.places q + 1)
  have hcarry := limit_le_carry (F := F)
  have hfar : (F.limit - 1 : ℚ) + F.base * F.carry ≤ 2 * (q * F.base ^ (F.places q + 1)) := by
    have h := not_lt.mp fun h => hgap ⟨hroom, h⟩
    rwa [abs_of_nonneg hq] at h
  refine ⟨?_, ?_, ?_⟩
  · calc
      |q - F.rounded q| * F.base ^ (F.places q + 1)
          ≤ |q - F.carry / F.base ^ F.places q| * F.base ^ (F.places q + 1) :=
        mul_le_mul_of_nonneg_right (rounded_least_onGrid ⟨F.carry, rfl⟩) hpos.le
      _ = |q * F.base ^ (F.places q + 1) - F.base * F.carry| := scaled_onGrid F.carry
      _ ≤ q * F.base ^ (F.places q + 1) - (F.limit - 1) := by
        rw [abs_le]
        constructor
        · linarith
        · linarith
  · have := (mul_le_mul_of_nonneg_right (le_abs_self y) hpos.le).trans hy
    linarith
  · rw [← sub_mul]
    exact mul_le_mul_of_nonneg_right (le_abs_self _) hpos.le

private theorem nearest_of_not_gap (heven : F.base % 2 = 0) (hfits : F.Fits q 0) (hq : 0 ≤ q)
    (hgap : ¬ F.Gap q) : F.Nearest q (F.rounded q) := by
  have hpos := power_pos (F := F) (F.places q + 1)
  refine ⟨rounded_holds hfits, ?_, ?_⟩
  · intro y hy
    by_cases hgrid : F.OnGrid (F.places q) y
    · exact rounded_least_onGrid hgrid
    · obtain ⟨hroom, hlargest⟩ := le_of_not_onGrid hy hgrid
      obtain ⟨hnear, hmid, hfar⟩ := carry_nearer hq hgap hroom hlargest
      exact le_of_mul_le_mul_right (hnear.trans (hmid.trans hfar)) hpos
  · intro y hy same hne
    by_cases hgrid : F.OnGrid (F.places q) y
    · exact rounded_even_onGrid hgrid same hne
    · obtain ⟨hroom, hlargest⟩ := le_of_not_onGrid hy hgrid
      obtain ⟨hnear, hmid, hfar⟩ := carry_nearer hq hgap hroom hlargest
      rw [same] at hfar
      have hlimit := F.even
      have hone := F.limit_pos
      refine ⟨F.places q + 1, F.base * F.units q, F.limit - 1, ?_, ?_, ?_, by omega⟩
      · rw [rounded, div_eq_div_iff (power_pos _).ne' hpos.ne', pow_succ]
        push_cast
        ring
      · rw [eq_div_iff hpos.ne']
        push_cast
        linarith
      · rw [Int.mul_emod, show (F.base : ℤ) % 2 = 0 by omega]
        simp

theorem Nearest.neg (h : F.Nearest q x) : F.Nearest (-q) (-x) := by
  have mirror : ∀ y : ℚ, |(-q) - y| = |q - -y| := fun y => by
    rw [← abs_neg]
    congr 1
    ring
  refine ⟨h.holds.neg, ?_, ?_⟩
  · intro y hy
    rw [mirror, mirror, neg_neg]
    exact h.least hy.neg
  · intro y hy same hne
    rw [mirror, mirror, neg_neg] at same
    have hother : -y ≠ x := fun heq => hne (by rw [← heq, neg_neg])
    obtain ⟨s, m, n, hx, hy', hm, hn⟩ := h.even hy.neg same hother
    refine ⟨s, -m, -n, ?_, ?_, by omega, by omega⟩
    · rw [hx]
      push_cast
      ring
    · rw [← neg_neg y, hy']
      push_cast
      ring

theorem gap_neg : F.Gap (-q) ↔ F.Gap q := by
  rw [Gap, Gap, places_neg, abs_neg]

/-- A number at the places there is room for is the nearest exactly where it is the rounded
one and the value is not in the gap. -/
theorem nearest_iff (heven : F.base % 2 = 0) (hfits : F.Fits q 0) (hx : F.OnGrid (F.places q) x) :
    F.Nearest q x ↔ ¬ F.Gap q ∧ x = F.rounded q := by
  have positive : ∀ {q x : ℚ}, 0 ≤ q → F.Fits q 0 → F.OnGrid (F.places q) x →
      (F.Nearest q x ↔ ¬ F.Gap q ∧ x = F.rounded q) := by
    intro q x hq hfits hx
    constructor
    · intro h
      have hgap : ¬ F.Gap q := fun hgap => not_nearest_of_gap hq hgap hx h
      exact ⟨hgap, h.unique (nearest_of_not_gap heven hfits hq hgap)⟩
    · rintro ⟨hgap, rfl⟩
      exact nearest_of_not_gap heven hfits hq hgap
  rcases le_total 0 q with hq | hq
  · exact positive hq hfits hx
  · have hgrid : F.OnGrid (F.places (-q)) (-x) := by
      rw [places_neg]
      exact hx.neg
    have hneg := positive (neg_nonneg.mpr hq) (fits_neg.mpr hfits) hgrid
    rw [gap_neg, rounded_neg, neg_inj] at hneg
    rw [← hneg]
    exact ⟨Nearest.neg, fun h => by simpa using h.neg⟩

end Format

end QuantForge.Rounding
