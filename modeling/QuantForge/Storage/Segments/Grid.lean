import Mathlib.Data.Int.ConditionallyCompleteOrder
import Mathlib.Data.Int.CardIntervalMod
import Mathlib.Tactic.FieldSimp
import QuantForge.Storage.Segments.Window
import Mathlib.Data.Set.Card

namespace QuantForge.Periodic

open Finset

/-- Every stretch of `n` periods holds `n` integers of one residue. -/
theorem card_residues {period : Int} (hperiod : 0 < period) (start residue : Int) (n : Nat) :
    #{x ∈ Ico start (start + period * n) | x ≡ residue [ZMOD period]} = n := by
  have nonzero : (period : ℚ) ≠ 0 := by exact_mod_cast hperiod.ne'
  have shifted : ((start + period * n : Int) - residue : ℚ) / period =
      (start - residue) / period + n := by
    push_cast
    field_simp
    ring
  have counted := Int.Ico_filter_modEq_card start (start + period * n) hperiod residue
  rw [shifted, Int.ceil_add_natCast] at counted
  omega

end QuantForge.Periodic

namespace QuantForge.Segments

/-- A time on the grid of an interval's open times that `offset` is on. -/
def OnGrid (interval : Interval) (offset : Int) (openTimeMs : Int64) : Prop :=
  openTimeMs.toInt ≡ offset [ZMOD interval.stepMs.toInt]

/-- Times from one to another, which it leaves out, on a grid. -/
def gridBars (interval : Interval) (offset start end_ : Int) : Set Int64 :=
  {t | start ≤ t.toInt ∧ t.toInt < end_ ∧ OnGrid interval offset t}

/-- A window cannot be written only near either end of the timestamp range. -/
theorem window_none {interval : Interval} {t : Int64} (h : window interval t = none) :
    t.toInt < -2 ^ 63 + (spanMs interval).toInt ∨ 2 ^ 63 - 1 - (spanMs interval).toInt < t.toInt := by
  have hspan := spanMs_pos interval
  set span := (spanMs interval).toInt with hset
  have below : t.toInt / span * span ≤ t.toInt := Int.ediv_mul_le _ hspan.ne'
  have above : t.toInt < t.toInt / span * span + span := by
    have next := Int.lt_ediv_add_one_mul_self t.toInt hspan
    rwa [add_mul, one_mul] at next
  by_contra hrange
  have hstart : -2 ^ 63 ≤ t.toInt / span * span ∧ t.toInt / span * span < 2 ^ 63 := by omega
  have hend : -2 ^ 63 ≤ t.toInt / span * span + span ∧
      t.toInt / span * span + span < 2 ^ 63 := by omega
  let start := Int64.ofInt (t.toInt / span * span)
  let end_ := Int64.ofInt (t.toInt / span * span + span)
  have hs : start.toInt = t.toInt / span * span := Int64.toInt_ofInt_of_le hstart.1 hstart.2
  have he : end_.toInt = t.toInt / span * span + span := Int64.toInt_ofInt_of_le hend.1 hend.2
  have written : window interval t = some ⟨start, end_⟩ :=
    window_some.mpr ⟨hs, by rw [he, hs]⟩
  rw [h] at written
  cases written

/-- A window's worth of time holds as many grid bars as a segment may, if all of
them can be written. -/
theorem gridBars_card (interval : Interval) (offset start : Int)
    (written : ∀ x, start ≤ x → x < start + (spanMs interval).toInt →
      x ≡ offset [ZMOD interval.stepMs.toInt] → -2 ^ 63 ≤ x ∧ x < 2 ^ 63) :
    (gridBars interval offset start (start + (spanMs interval).toInt)).ncard = windowBars := by
  have hstep : 0 < interval.stepMs.toInt := by
    have := interval.stepMs_range
    omega
  have whole := Periodic.card_residues hstep start offset windowBars
  have span : interval.stepMs.toInt * (windowBars : Int) = (spanMs interval).toInt :=
    (spanMs_toInt interval).symm
  rw [span] at whole
  have injective : Function.Injective Int64.toInt := fun a b h => Int64.toInt_inj.mp h
  rw [← whole, ← Set.ncard_coe_finset, ← Set.ncard_image_of_injective _ injective]
  congr 1
  ext x
  simp only [Set.mem_image, gridBars, OnGrid, Set.mem_ofPred_eq, Finset.coe_filter, Finset.mem_Ico]
  constructor
  · rintro ⟨t, ⟨hlow, hhigh, hgrid⟩, rfl⟩
    exact ⟨⟨hlow, hhigh⟩, hgrid⟩
  · rintro ⟨⟨hlow, hhigh⟩, hgrid⟩
    obtain ⟨hmin, hmax⟩ := written x hlow hhigh hgrid
    have same : (Int64.ofInt x).toInt = x := Int64.toInt_ofInt_of_le hmin hmax
    exact ⟨Int64.ofInt x, ⟨by rw [same]; exact hlow, by rw [same]; exact hhigh,
      by rw [same]; exact hgrid⟩, same⟩

/-- The grid bars of a window. -/
def Window.gridBars (interval : Interval) (offset : Int) (w : Window) : Set Int64 :=
  {t | w.contains t = true ∧ OnGrid interval offset t}

theorem window_gridBars {interval : Interval} {t : Int64} {w : Window}
    (h : window interval t = some w) (offset : Int) :
    (w.gridBars interval offset).ncard = windowBars := by
  have hend := (window_some.mp h).2
  have bars : w.gridBars interval offset =
      Segments.gridBars interval offset w.start.toInt (w.start.toInt + (spanMs interval).toInt) := by
    ext u
    simp only [Window.gridBars, Segments.gridBars, Set.mem_ofPred_eq, contains_iff, hend, and_assoc]
  rw [bars]
  refine gridBars_card interval offset w.start.toInt fun x hlow hhigh _ => ?_
  have hmin := Int64.le_toInt w.start
  have hmax := Int64.toInt_lt w.end_
  omega

/-- Different candles of one window on one grid are never more than a segment
may hold. -/
theorem onGrid_few {interval : Interval} {t : Int64} {w : Window}
    (h : window interval t = some w) (offset : Int) {times : List Int64} (distinct : times.Nodup)
    (within_ : ∀ u ∈ times, u ∈ w.gridBars interval offset) : times.length ≤ windowBars := by
  rw [← window_gridBars h offset, ← List.toFinset_card_of_nodup distinct,
    ← Set.ncard_coe_finset]
  apply Set.ncard_le_ncard
  · intro u hu
    exact within_ u (List.mem_toFinset.mp hu)
  · apply Set.finite_of_ncard_ne_zero
    rw [window_gridBars h offset]
    decide

/-- Windows partition time, but for the two ends of its range, and each holds a
segment's worth of grid bars, wherever the grid lies. -/
theorem windows_partition (interval : Interval) :
    (spanMs interval).toInt = interval.stepMs.toInt * windowBars ∧
      (∀ t, window interval t = none →
        t.toInt < Int64.minValue.toInt + (spanMs interval).toInt ∨
          Int64.maxValue.toInt - (spanMs interval).toInt < t.toInt) ∧
      (∀ t w, window interval t = some w → w.start ≤ t ∧ t < w.end_ ∧
        w.end_.toInt = w.start.toInt + (spanMs interval).toInt ∧
        (spanMs interval).toInt ∣ w.start.toInt) ∧
      (∀ t u w v, window interval t = some w → window interval u = some v →
        (w = v ↔ w.start = v.start) ∧
          (w ≠ v → ∀ x, ¬(w.contains x = true ∧ v.contains x = true))) ∧
      (∀ k offset, (∀ x, k * (spanMs interval).toInt ≤ x → x < (k + 1) * (spanMs interval).toInt →
          x ≡ offset [ZMOD interval.stepMs.toInt] → -2 ^ 63 ≤ x ∧ x < 2 ^ 63) →
        (gridBars interval offset (k * (spanMs interval).toInt)
          ((k + 1) * (spanMs interval).toInt)).ncard = windowBars) ∧
      ∀ t w offset, window interval t = some w →
        (w.gridBars interval offset).ncard = windowBars ∧
          ∀ times : List Int64, times.Nodup → (∀ u ∈ times, u ∈ w.gridBars interval offset) →
            times.length ≤ windowBars := by
  refine ⟨spanMs_toInt interval, fun t => window_none, fun t w h => ?_, fun t u w v hw hv => ⟨?_, ?_⟩, ?_, ?_⟩
  · obtain ⟨hstart, hend⟩ := window_some.mp h
    have inside := contains_iff.mp (window_self h)
    refine ⟨Int64.le_iff_toInt_le.mpr inside.1, Int64.lt_iff_toInt_lt.mpr inside.2, hend, ?_⟩
    rw [hstart]
    exact Int.dvd_mul_left _ _
  · constructor
    · intro same
      rw [same]
    · exact window_unique hw hv
  · intro different x both
    have first := (window_contains hw x).mp both.1
    rw [(window_contains hv x).mp both.2, Option.some.injEq] at first
    exact different first.symm
  · intro k offset written
    rw [add_mul, one_mul] at written ⊢
    exact gridBars_card interval offset _ written
  · intro t w offset h
    exact ⟨window_gridBars h offset, fun times => onGrid_few h offset⟩

end QuantForge.Segments
