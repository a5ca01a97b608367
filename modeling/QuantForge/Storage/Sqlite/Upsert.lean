import QuantForge.Storage.Sqlite.Store

namespace QuantForge

/-- A window of the interval, rather than just two times. -/
def Segments.Window.Of (interval : Interval) (w : Segments.Window) : Prop :=
  Segments.window interval w.start = some w

namespace Sqlite

/-- The candles of a window. -/
def CandleTable.within (candles : CandleTable) (w : Segments.Window) : List TextCandle :=
  candles.rows.filter fun c => w.contains c.openTimeMs

theorem CandleTable.within_rising (candles : CandleTable) (w : Segments.Window) :
    (candles.within w).Pairwise fun a b => a.openTimeMs.toInt < b.openTimeMs.toInt :=
  candles.rising.filter _

theorem CandleTable.mem_within {candles : CandleTable} {w : Segments.Window} {c : TextCandle} :
    c ∈ candles.within w ↔ c ∈ candles.rows ∧ w.contains c.openTimeMs = true := List.mem_filter

/-- A candle outside a window leaves the window as it was. -/
theorem within_put {candles : CandleTable} {w : Segments.Window} {row : TextCandle}
    (h : w.contains row.openTimeMs = false) :
    CandleTable.within (candles.put row) w = candles.within w := by
  apply Table.rising_ext (CandleTable.within_rising _ w) (candles.within_rising w)
  intro c
  rw [CandleTable.mem_within, CandleTable.mem_within, Table.mem_put]
  constructor
  · rintro ⟨rfl | ⟨hc, -⟩, hw⟩
    · rw [h] at hw
      cases hw
    · exact ⟨hc, hw⟩
  · rintro ⟨hc, hw⟩
    refine ⟨.inr ⟨hc, ?_⟩, hw⟩
    intro hkey
    rw [Int64.toInt_inj.mp hkey, h] at hw
    cases hw

/-- What writing one candle does. -/
theorem upsertRow_cases (candles : CandleTable) (row : TextCandle) :
    upsertRow candles row = (candles, false) ∨ upsertRow candles row = (candles.put row, true) := by
  unfold upsertRow
  split_ifs
  · exact .inl rfl
  · exact .inr rfl

/-- Candles beside the starts of their windows. -/
def Dated (interval : Interval) (rows : List (TextCandle × Int64)) : Prop :=
  ∀ row ∈ rows, ∃ w, Segments.window interval row.1.openTimeMs = some w ∧ w.start = row.2

/-- What writing candles one after another does: a window whose start is not
among the changed ones keeps its candles. -/
structure Upserted (interval : Interval) (candles : CandleTable) (changed : Table Int64.toInt)
    (written : CandleTable × Table Int64.toInt) : Prop where
  grows : ∀ start ∈ changed.rows, start ∈ written.2.rows
  starts : ∀ start ∈ written.2.rows,
    start ∈ changed.rows ∨ ∃ w : Segments.Window, w.Of interval ∧ w.start = start
  placed : ∀ c ∈ written.1.rows,
    c ∈ candles.rows ∨ ∃ w, Segments.window interval c.openTimeMs = some w
  kept : ∀ w : Segments.Window, w.Of interval → w.start ∉ written.2.rows →
    written.1.within w = candles.within w

theorem upsertRows_spec {interval : Interval} {rows : List (TextCandle × Int64)}
    (hrows : Dated interval rows) (candles : CandleTable) (changed : Table Int64.toInt) :
    Upserted interval candles changed (upsertRows candles changed rows) := by
  induction rows generalizing candles changed with
  | nil => exact ⟨fun _ h => h, fun _ h => .inl h, fun _ h => .inl h, fun _ _ _ => rfl⟩
  | cons head rows ih =>
    obtain ⟨row, start⟩ := head
    have hrest : Dated interval rows := fun other hother => hrows other (List.mem_cons_of_mem _ hother)
    obtain ⟨window, hwindow, hstart⟩ := hrows (row, start) (by simp)
    rcases upsertRow_cases candles row with hrow | hrow
    · simp only [upsertRows, hrow]
      exact ih hrest candles changed
    · simp only [upsertRows, hrow, if_true]
      have hlater := ih hrest (candles.put row) (changed.put start)
      have hmarked : start ∈ (upsertRows (candles.put row) (changed.put start) rows).2.rows :=
        hlater.grows start (changed.mem_put.mpr (.inl rfl))
      refine ⟨?_, ?_, ?_, ?_⟩
      · intro other hother
        by_cases hsame : other = start
        · rw [hsame]
          exact hmarked
        · apply hlater.grows
          exact changed.mem_put.mpr (.inr ⟨hother, fun hkey => hsame (Int64.toInt_inj.mp hkey)⟩)
      · intro other hother
        rcases hlater.starts other hother with hput | hof
        · rcases changed.mem_put.mp hput with rfl | ⟨hchanged, -⟩
          · exact .inr ⟨window, by rw [Segments.Window.Of, Segments.window_start hwindow], hstart⟩
          · exact .inl hchanged
        · exact .inr hof
      · intro c hc
        rcases hlater.placed c hc with hput | hplaced
        · rcases candles.mem_put.mp hput with rfl | ⟨hold, -⟩
          · exact .inr ⟨window, hwindow⟩
          · exact .inl hold
        · exact .inr hplaced
      · intro w hw hout
        rw [hlater.kept w hw hout]
        apply within_put
        by_contra hinside
        rw [Bool.not_eq_false, Segments.window_contains hw, hwindow] at hinside
        apply hout
        rw [← Option.some.inj hinside, hstart]
        exact hmarked

end Sqlite

end QuantForge
