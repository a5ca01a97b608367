import QuantForge.Math.Nearest

namespace QuantForge.Rounding

theorem eq_of_le_iff {a b : ℤ} (h : ∀ n, n ≤ a ↔ n ≤ b) : a = b :=
  le_antisymm ((h a).mp le_rfl) ((h b).mpr le_rfl)

/-- The midpoint after `k` rounds to its even neighbour. -/
theorem roundEven_midpoint (k : ℤ) :
    roundEven ((k : ℚ) + 1 / 2) = if k % 2 = 0 then k else k + 1 := by
  apply eq_of_le_iff
  intro n
  rw [le_roundEven_iff]
  have near : (n : ℚ) - 1 / 2 < k + 1 / 2 ↔ n ≤ k := by
    rw [sub_lt_iff_lt_add, add_assoc, add_halves, ← Int.lt_add_one_iff]
    exact_mod_cast Iff.rfl
  have same : (k : ℚ) + 1 / 2 = n - 1 / 2 ↔ n = k + 1 := by
    rw [eq_sub_iff_add_eq, add_assoc, add_halves, eq_comm]
    exact_mod_cast Iff.rfl
  rw [near, same]
  split_ifs with heven
  · omega
  · omega

section

variable {y : ℚ} {n : ℕ} {m j : ℤ}

/-- `y` lies past the midpoint after `k` on the side away from its even neighbour. -/
def Beyond (y : ℚ) (k : ℤ) : Prop :=
  (k + 1 / 2 < y ∧ k % 2 = 0) ∨ (y < k + 1 / 2 ∧ k % 2 = 1)

/-- A midpoint is a multiple of `1 / n`. -/
theorem midpoint_mul (heven : n % 2 = 0) (k : ℤ) :
    ((k : ℚ) + 1 / 2) * n = (k * n + n / 2 : ℤ) := by
  have htwice : (n : ℚ) = 2 * ((n / 2 : ℤ) : ℚ) := by
    have : (n : ℤ) = 2 * (n / 2) := by omega
    exact_mod_cast congrArg (Int.cast : ℤ → ℚ) this
  have hhalf : (1 / 2 : ℚ) * n = ((n / 2 : ℤ) : ℚ) := by
    rw [htwice]
    ring
  rw [add_mul, hhalf]
  push_cast
  rfl

/-- Rounding to a multiple of `1 / n` crosses no midpoint. -/
theorem midpoint_side (hn : 0 < n) (heven : n % 2 = 0) (hm : |y * n - m| ≤ 1 / 2) (k : ℤ) :
    ((m : ℚ) / n < k + 1 / 2 → y < k + 1 / 2) ∧ ((k : ℚ) + 1 / 2 < m / n → (k : ℚ) + 1 / 2 < y) := by
  have hpos : (0 : ℚ) < n := by exact_mod_cast hn
  obtain ⟨hlow, hhigh⟩ := abs_le.mp hm
  constructor
  · intro h
    rw [div_lt_iff₀ hpos, midpoint_mul heven] at h
    have hstep : m + 1 ≤ k * n + n / 2 := by exact_mod_cast h
    have hcast : (m : ℚ) + 1 ≤ (k * n + n / 2 : ℤ) := by exact_mod_cast hstep
    rw [← midpoint_mul heven] at hcast
    apply lt_of_mul_lt_mul_right _ hpos.le
    linarith
  · intro h
    rw [lt_div_iff₀ hpos, midpoint_mul heven] at h
    have hstep : k * n + n / 2 + 1 ≤ m := by exact_mod_cast h
    have hcast : ((k * n + n / 2 : ℤ) : ℚ) + 1 ≤ m := by exact_mod_cast hstep
    rw [← midpoint_mul heven] at hcast
    apply lt_of_mul_lt_mul_right _ hpos.le
    linarith

/-- Rounding twice, first to a multiple of `1 / n`, differs from rounding once exactly where
the first rounding ends on a midpoint and the value is beyond it. -/
theorem roundEven_twice_iff (hn : 0 < n) (heven : n % 2 = 0) (hm : |y * n - m| ≤ 1 / 2) :
    roundEven ((m : ℚ) / n) = roundEven y ↔ ¬ ∃ k : ℤ, (m : ℚ) / n = k + 1 / 2 ∧ Beyond y k := by
  constructor
  · rintro same ⟨k, hk, hbeyond⟩
    rw [hk, roundEven_midpoint] at same
    rcases hbeyond with ⟨hy, hpar⟩ | ⟨hy, hpar⟩
    · have hup : k + 1 ≤ roundEven y := by
        rw [le_roundEven_iff]
        left
        push_cast
        linarith
      rw [if_pos hpar] at same
      omega
    · have hdown : ¬ k + 1 ≤ roundEven y := by
        rw [le_roundEven_iff]
        push_cast
        rintro (h | ⟨h, -⟩)
        · linarith
        · linarith
      rw [if_neg (by omega)] at same
      omega
  · intro hnone
    apply eq_of_le_iff
    intro j
    rw [le_roundEven_iff, le_roundEven_iff]
    have hmid : (j : ℚ) - 1 / 2 = ((j - 1 : ℤ) : ℚ) + 1 / 2 := by
      push_cast
      ring
    rw [hmid]
    obtain ⟨hbelow, habove⟩ := midpoint_side hn heven hm (j - 1)
    rcases lt_trichotomy ((m : ℚ) / n) (((j - 1 : ℤ) : ℚ) + 1 / 2) with h | h | h
    · have hy := hbelow h
      constructor
      · rintro (h' | ⟨h', -⟩)
        · exact absurd h' h.not_gt
        · exact absurd h' h.ne
      · rintro (h' | ⟨h', -⟩)
        · exact absurd h' hy.not_gt
        · exact absurd h' hy.ne
    · have hpast : ¬ Beyond y (j - 1) := fun hb => hnone ⟨j - 1, h, hb⟩
      rw [Beyond, not_or] at hpast
      rw [h]
      rcases lt_trichotomy y (((j - 1 : ℤ) : ℚ) + 1 / 2) with hy | hy | hy
      · have hodd : ¬ j % 2 = 0 := by
          intro hj
          exact hpast.2 ⟨hy, by omega⟩
        constructor
        · rintro (h' | ⟨-, h'⟩)
          · exact absurd h' (lt_irrefl _)
          · exact absurd h' hodd
        · rintro (h' | ⟨h', -⟩)
          · exact absurd h' hy.not_gt
          · exact absurd h' hy.ne
      · rw [hy]
      · have hj : j % 2 = 0 := by
          by_contra hodd
          exact hpast.1 ⟨hy, by omega⟩
        exact ⟨fun _ => .inl hy, fun _ => .inr ⟨rfl, hj⟩⟩
    · exact ⟨fun _ => .inl (habove h), fun _ => .inl h⟩

/-- The first rounding ends on the midpoint after `k` where that is what the value rounds to. -/
theorem midpoint_reached_iff {y : ℚ} {ties : Ties} (hn : 0 < n) (heven : n % 2 = 0)
    (hm : ties.Rounds (y * n) m) (k : ℤ) :
    (m : ℚ) / n = k + 1 / 2 ↔ ties.Rounds (y * n) (k * n + n / 2) := by
  have hpos : (n : ℚ) ≠ 0 := by exact_mod_cast hn.ne'
  rw [div_eq_iff hpos, midpoint_mul heven, Int.cast_inj]
  constructor
  · rintro rfl
    exact hm
  · intro h
    exact hm.unique h

end

namespace Format

/-- The format with fewer places. -/
def upTo (F : Format) (scales : ℕ) : Format where
  base := F.base
  limit := F.limit
  scales := scales
  one_le := F.one_le
  limit_pos := F.limit_pos
  even := F.even
  carries := F.carries

variable {F : Format} {q : ℚ} {s t : ℕ}

theorem upTo_fits : (F.upTo s).Fits q t ↔ F.Fits q t := Iff.rfl

theorem upTo_places_le : (F.upTo s).places q ≤ s := Nat.findGreatest_le _

theorem upTo_places_of_le (h : F.places q ≤ s) (hs : s ≤ F.scales) (hq : F.Fits q 0) :
    (F.upTo s).places q = F.places q := by
  apply le_antisymm
  · have hfits : (F.upTo s).Fits q ((F.upTo s).places q) := fits_places (upTo_fits.mpr hq)
    exact le_places (upTo_places_le.trans hs) (upTo_fits.mp hfits)
  · have hfits : (F.upTo s).Fits q (F.places q) := upTo_fits.mpr (fits_places hq)
    exact le_places h hfits

theorem upTo_places_of_ge (h : s ≤ F.places q) (hq : F.Fits q 0) : (F.upTo s).places q = s := by
  apply le_antisymm upTo_places_le
  have hfits : (F.upTo s).Fits q s := upTo_fits.mpr ((fits_places hq).of_le h)
  exact le_places le_rfl hfits

end Format

end QuantForge.Rounding
