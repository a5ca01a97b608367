import QuantForge.Storage.Sqlite.Interleaving

namespace QuantForge.Sqlite

open Refresh Segments

variable {interval : Interval}

/-- A table has candles in the window that starts at `start`. -/
def Fills (interval : Interval) (candles : CandleTable) (start : Int64) : Prop :=
  ∃ c ∈ candles.rows, ∃ w, Segments.window interval c.openTimeMs = some w ∧ w.start = start

/-- Every marked window has candles. -/
def Filled (interval : Interval) (s : Store) : Prop :=
  ∀ m ∈ s.dirty.rows, Fills interval s.candles m.windowStartMs

/-- Writing a candle leaves no window without candles that had some. -/
theorem fills_put {candles : CandleTable} {start : Int64} (row : TextCandle)
    (h : Fills interval candles start) : Fills interval (candles.put row) start := by
  obtain ⟨c, hc, w, hw, hstart⟩ := h
  by_cases same : c.openTimeMs = row.openTimeMs
  · rw [same] at hw
    exact ⟨row, candles.mem_put.mpr (.inl rfl), w, hw, hstart⟩
  · have kept : c ∈ (candles.put row).rows :=
      candles.mem_put.mpr (.inr ⟨hc, fun hkey => same (Int64.toInt_inj.mp hkey)⟩)
    exact ⟨c, kept, w, hw, hstart⟩

theorem fills_upsertRow {candles : CandleTable} {start : Int64} (row : TextCandle)
    (h : Fills interval candles start) : Fills interval (upsertRow candles row).1 start := by
  rcases upsertRow_cases candles row with hrow | hrow
  · rw [hrow]
    exact h
  · rw [hrow]
    exact fills_put row h

theorem fills_upsertRows {rows : List (TextCandle × Int64)} {candles : CandleTable}
    {changed : Table Int64.toInt} {start : Int64} (h : Fills interval candles start) :
    Fills interval (upsertRows candles changed rows).1 start := by
  induction rows generalizing candles changed with
  | nil => exact h
  | cons head rows ih => exact ih (fills_upsertRow head.1 h)

/-- A window that a batch changed has candles after it. -/
theorem upsertRows_fills {rows : List (TextCandle × Int64)} (hrows : Dated interval rows)
    {candles : CandleTable} {changed : Table Int64.toInt} {start : Int64}
    (h : start ∈ (upsertRows candles changed rows).2.rows) :
    start ∈ changed.rows ∨ Fills interval (upsertRows candles changed rows).1 start := by
  induction rows generalizing candles changed with
  | nil => exact .inl h
  | cons head rows ih =>
    obtain ⟨row, first⟩ := head
    have hrest : Dated interval rows := fun other hother =>
      hrows other (List.mem_cons_of_mem _ hother)
    obtain ⟨window, hwindow, hstart⟩ := hrows (row, first) (by simp)
    rcases upsertRow_cases candles row with hrow | hrow
    · simp only [upsertRows, hrow] at h ⊢
      exact ih hrest h
    · simp only [upsertRows, hrow, if_true] at h ⊢
      rcases ih hrest h with hput | hfills
      · rcases changed.mem_put.mp hput with rfl | ⟨hchanged, -⟩
        · have fills : Fills interval (candles.put row) start :=
            ⟨row, candles.mem_put.mpr (.inl rfl), window, hwindow, hstart⟩
          exact .inr (fills_upsertRows fills)
        · exact .inl hchanged
      · exact .inr hfills

theorem mem_markDirty {s : Store} {starts : List Int64} {m : Mark}
    (h : m ∈ (s.markDirty starts).dirty.rows) : m ∈ s.dirty.rows ∨ m.windowStartMs ∈ starts := by
  induction starts generalizing s with
  | nil => exact .inl h
  | cons start starts ih =>
    have later : m ∈ (s.mark start).dirty.rows ∨ m.windowStartMs ∈ starts := ih h
    rcases later with hmark | hlater
    · rcases s.dirty.mem_put.mp hmark with rfl | ⟨hold, -⟩
      · exact .inr (by simp)
      · exact .inl hold
    · exact .inr (List.mem_cons_of_mem _ hlater)

theorem upsert_filled {s t : Store} {batch : List Candle} {written : Nat}
    (h : s.upsertCandles interval batch = .ok (written, t)) (hs : Filled interval s) :
    Filled interval t := by
  unfold Store.upsertCandles at h
  by_cases hempty : batch.isEmpty = true
  · rw [if_pos hempty] at h
    cases h
    exact hs
  · rw [if_neg hempty, bind_ok] at h
    obtain ⟨starts, hstarts, h⟩ := h
    cases hrows : upsertRows s.candles Table.empty ((batch.map (·.toText)).zip starts) with
    | mk candles changed =>
      simp only [hrows, pure, Except.pure, Except.ok.injEq, Prod.mk.injEq] at h
      obtain ⟨-, rfl⟩ := h
      intro m hm
      have same := (Store.markDirty_frame { s with candles := candles } changed.rows).1
      rw [same]
      rcases mem_markDirty hm with hold | hnew
      · have kept : Fills interval
            (upsertRows s.candles Table.empty ((batch.map (·.toText)).zip starts)).1
              m.windowStartMs := fills_upsertRows (hs m hold)
        rw [hrows] at kept
        exact kept
      · have listed : m.windowStartMs ∈
            (upsertRows s.candles Table.empty ((batch.map (·.toText)).zip starts)).2.rows := by
          rw [hrows]
          exact hnew
        rcases upsertRows_fills (Store.zip_dated hstarts) listed with hnone | hfills
        · cases hnone
        · rw [hrows] at hfills
          exact hfills

theorem writeWindow_filled {s : Store} {start : Int64} {id : Nat} {packed : Packed}
    (hs : Filled interval s) : Filled interval (s.writeWindow start id packed).2 := by
  unfold Store.writeWindow
  cases s.markOf start with
  | none => exact hs
  | some current =>
    by_cases replaced : current.id ≠ id
    · simp only [if_pos replaced]
      exact hs
    · simp only [if_neg replaced]
      obtain ⟨candles, dirty, -, -⟩ := s.apply_frame start packed
      intro m hm
      have old : m ∈ s.dirty.rows := by
        have hkept := (Table.mem_keep _).mp hm
        rw [dirty] at hkept
        exact hkept.1
      have fills := hs m old
      rw [← candles] at fills
      exact fills

/-- In every state that writers and refreshes reach, a marked window has candles. -/
theorem filled_run [DecimalParser] [Sha256] [Zstd] (interval : Interval) (ops : List Op) :
    Filled interval ((machine interval).run World.empty ops).store := by
  apply (machine interval).run_keeps fun world => Filled interval world.store
  · intro m hm
    cases hm
  · intro world op hs
    cases op with
    | upsertCandles batch =>
      cases hbatch : world.store.upsertCandles interval batch with
      | error error =>
        simp only [Machine.next, machine, hbatch]
        exact hs
      | ok answer =>
        simp only [Machine.next, machine, hbatch]
        exact upsert_filled hbatch hs
    | readWindow windowStartMs =>
      simp only [Machine.next, machine]
      split
      · exact hs
      · split
        · exact hs
        · exact hs
    | pack index =>
      simp only [Machine.next, machine]
      split
      · exact hs
      · split
        · exact hs
        · exact hs
    | writeWindow index =>
      simp only [Machine.next, machine]
      split
      · exact hs
      · exact writeWindow_filled hs

end QuantForge.Sqlite
