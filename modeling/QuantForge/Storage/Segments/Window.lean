import QuantForge.Math.Checked
import QuantForge.Model.Interval
import QuantForge.Storage.Segments.Payload

namespace QuantForge.Segments

/-- How long a window of `interval` candles lasts. -/
def spanMs (interval : Interval) : Int64 := interval.stepMs * Int64.ofNat windowBars

/-- The open times from `start` up to `end_`, which it leaves out. -/
structure Window where
  start : Int64
  end_ : Int64
  deriving DecidableEq, Repr

namespace Window

def contains (w : Window) (openTimeMs : Int64) : Bool := w.start ≤ openTimeMs && openTimeMs < w.end_

end Window

/-- Rounds down, the span being positive. -/
def divEuclid (a b : Int64) : Int64 := Int64.ofInt (a.toInt / b.toInt)

/-- The window holding a candle that opens at `openTimeMs`. None within a span
of either end of the timestamp range, where a window's bounds cannot be
written. -/
def window (interval : Interval) (openTimeMs : Int64) : Option Window := do
  let span := spanMs interval
  let start ← Checked.mul (divEuclid openTimeMs span) span
  let end_ ← Checked.add start span
  return ⟨start, end_⟩

theorem spanMs_toInt (interval : Interval) :
    (spanMs interval).toInt = interval.stepMs.toInt * 1440 := by
  cases interval <;> decide

theorem spanMs_pos (interval : Interval) : 0 < (spanMs interval).toInt := by
  have hstep := interval.stepMs_range
  rw [spanMs_toInt]
  omega

theorem divEuclid_toInt {a b : Int64} (hb : 0 < b.toInt) :
    (divEuclid a b).toInt = a.toInt / b.toInt := by
  have hlow := Int64.le_toInt a
  have hhigh := Int64.toInt_lt a
  apply Int64.toInt_ofInt_of_le
  · exact (Int.le_ediv_iff_mul_le hb).mpr (by omega)
  · exact (Int.ediv_lt_iff_lt_mul hb).mpr (by omega)

/-- The bounds of the window a time lies in. -/
theorem window_some {interval : Interval} {t : Int64} {w : Window} :
    window interval t = some w ↔
      w.start.toInt = t.toInt / (spanMs interval).toInt * (spanMs interval).toInt ∧
        w.end_.toInt = w.start.toInt + (spanMs interval).toInt := by
  simp only [window, Option.bind_eq_bind, Option.bind_eq_some_iff, Option.pure_def,
    Checked.mul_some, Checked.add_some, divEuclid_toInt (spanMs_pos interval)]
  constructor
  · rintro ⟨start, hstart, end_, hend, h⟩
    rw [← Option.some.inj h]
    exact ⟨hstart, hend⟩
  · rintro ⟨hstart, hend⟩
    exact ⟨w.start, hstart, w.end_, hend, rfl⟩

theorem contains_iff {w : Window} {t : Int64} :
    w.contains t = true ↔ w.start.toInt ≤ t.toInt ∧ t.toInt < w.end_.toInt := by
  simp only [Window.contains, Bool.and_eq_true, decide_eq_true_eq, Int64.le_iff_toInt_le,
    Int64.lt_iff_toInt_lt]

/-- A window holds the times whose window it is. -/
theorem window_contains {interval : Interval} {t : Int64} {w : Window}
    (h : window interval t = some w) (u : Int64) :
    w.contains u = true ↔ window interval u = some w := by
  have hspan := spanMs_pos interval
  obtain ⟨hstart, hend⟩ := window_some.mp h
  have hquot := @Int.ediv_eq_iff_of_pos _ u.toInt (t.toInt / (spanMs interval).toInt) hspan
  rw [window_some, contains_iff, hend, hstart, ← hquot]
  constructor
  · intro hsame
    rw [hsame]
    exact ⟨rfl, rfl⟩
  · rintro ⟨hsame, -⟩
    exact (Int.eq_of_mul_eq_mul_right hspan.ne' hsame).symm

theorem window_self {interval : Interval} {t : Int64} {w : Window}
    (h : window interval t = some w) : w.contains t = true :=
  (window_contains h t).mpr h

/-- A window is its start's window. -/
theorem window_start {interval : Interval} {t : Int64} {w : Window}
    (h : window interval t = some w) : window interval w.start = some w := by
  rw [← window_contains h, contains_iff]
  have hspan := spanMs_pos interval
  have hend := (window_some.mp h).2
  omega

/-- Windows that start at one time are one window. -/
theorem window_unique {interval : Interval} {t u : Int64} {w v : Window}
    (hw : window interval t = some w) (hv : window interval u = some v)
    (h : w.start = v.start) : w = v := by
  have hstart := window_start hw
  rw [h, window_start hv] at hstart
  exact (Option.some.inj hstart).symm

/-- A window that starts before another ends before it starts. -/
theorem window_apart {interval : Interval} {t u : Int64} {w v : Window}
    (hw : window interval t = some w) (hv : window interval u = some v)
    (h : w.start.toInt < v.start.toInt) : w.end_.toInt ≤ v.start.toInt := by
  by_contra hlt
  have hinside : w.contains v.start = true := contains_iff.mpr ⟨h.le, not_le.mp hlt⟩
  rw [window_contains hw, window_start hv] at hinside
  rw [Option.some.inj hinside] at h
  exact lt_irrefl _ h

/-- A candle in a window is followed by an open time that an `i64` holds: the last window
ends more than a step before the range does. -/
theorem window_next {interval : Interval} {t : Int64} {w : Window}
    (h : window interval t = some w) :
    (t + interval.stepMs).toInt = t.toInt + interval.stepMs.toInt ∧
      Checked.add t interval.stepMs = some (t + interval.stepMs) := by
  obtain ⟨hstart, hend⟩ := window_some.mp h
  have hinside := (contains_iff.mp (window_self h)).2
  have hlimit := Int64.toInt_lt w.end_
  have hlow := Int64.le_toInt t
  have hfits : t.toInt + interval.stepMs.toInt < 2 ^ 63 := by
    generalize t.toInt / (spanMs interval).toInt = q at hstart
    rw [spanMs_toInt] at hstart hend
    revert hstart hend
    have hsteps : ∀ n, interval.stepMs.toInt = n → n ∈ [1000, 60000, 180000, 300000, 900000,
        1800000, 3600000, 7200000, 14400000, 21600000, 28800000, 43200000, 86400000, 259200000,
        604800000] := by
      intro n hn
      rw [← hn]
      cases interval <;> decide
    have hstep := hsteps _ rfl
    generalize interval.stepMs.toInt = step at hstep
    simp only [List.mem_cons, List.not_mem_nil, or_false] at hstep
    intro hstart hend
    rcases hstep with rfl | rfl | rfl | rfl | rfl | rfl | rfl | rfl | rfl | rfl | rfl | rfl | rfl |
      rfl | rfl <;> omega
  have hstep := interval.stepMs_range
  have hsum : (t + interval.stepMs).toInt = t.toInt + interval.stepMs.toInt := by
    rw [Int64.toInt_add, Int.bmod_eq_of_le (by omega) (by omega)]
  exact ⟨hsum, Checked.add_some.mpr hsum⟩

end QuantForge.Segments
