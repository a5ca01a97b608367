import QuantForge.Storage.CandleStore
import QuantForge.Storage.Sqlite.Marks
import QuantForge.Storage.Sqlite.ReadBack

namespace QuantForge.Sqlite

namespace Store

/-- The newest candles, at most `limit` of them, oldest first. -/
def loadRecentCandles [DecimalParser] (s : Store) (limit : Nat) :
    Except StorageError (List Candle) := do
  let candles ← (s.candles.rows.reverse.take limit).mapM parseCandleRow
  return candles.reverse

def maxOpenTimeMs (s : Store) : Option Int64 := s.candles.highest.map (·.openTimeMs)

end Store

instance [DecimalParser] : CandleStore Store where
  upsertCandles market batch := fun s =>
    match s.upsertCandles market.interval batch with
    | .ok (written, next) => (.ok written, next)
    | .error error => (.error error, s)
  loadCandles _ query s := s.loadCandles query
  loadRecentCandles _ limit s := s.loadRecentCandles limit
  maxOpenTimeMs _ s := .ok s.maxOpenTimeMs

/-- The candles hold one that opens at `time`. -/
def CandleTable.opensAt (candles : CandleTable) (time : Int64) : Prop :=
  ∃ c ∈ candles.rows, c.openTimeMs = time

theorem opensAt_put {candles : CandleTable} {row : TextCandle} {time : Int64} :
    CandleTable.opensAt (candles.put row) time ↔
      candles.opensAt time ∨ row.openTimeMs = time := by
  simp only [CandleTable.opensAt, Table.mem_put, ne_eq, Int64.toInt_inj]
  constructor
  · rintro ⟨c, rfl | ⟨hc, -⟩, htime⟩
    · exact .inr htime
    · exact .inl ⟨c, hc, htime⟩
  · rintro (⟨c, hc, htime⟩ | htime)
    · by_cases hsame : c.openTimeMs = row.openTimeMs
      · exact ⟨row, .inl rfl, hsame.symm.trans htime⟩
      · exact ⟨c, .inr ⟨hc, hsame⟩, htime⟩
    · exact ⟨row, .inl rfl, htime⟩

theorem upsertRow_opensAt {candles : CandleTable} {row : TextCandle} {time : Int64} :
    (upsertRow candles row).1.opensAt time ↔
      candles.opensAt time ∨ row.openTimeMs = time := by
  unfold upsertRow
  split_ifs with hsame
  · have hmem := ((Table.find_iff candles).mp hsame).1
    constructor
    · exact .inl
    · rintro (h | h)
      · exact h
      · exact ⟨row, hmem, h⟩
  · exact opensAt_put

theorem upsertRows_opensAt {rows : List (TextCandle × Int64)} {candles : CandleTable}
    {changed : Table Int64.toInt} {time : Int64} :
    (upsertRows candles changed rows).1.opensAt time ↔
      candles.opensAt time ∨ ∃ row ∈ rows, row.1.openTimeMs = time := by
  induction rows generalizing candles changed with
  | nil => simp [upsertRows]
  | cons head rows ih =>
    obtain ⟨row, start⟩ := head
    simp only [upsertRows, ih, upsertRow_opensAt, List.mem_cons, exists_eq_or_imp, or_assoc]

theorem upsertCandles_opensAt {interval : Interval} {s t : Store} {batch : List Candle}
    {written : Nat} (h : s.upsertCandles interval batch = .ok (written, t)) (time : Int64) :
    t.candles.opensAt time ↔
      s.candles.opensAt time ∨ ∃ c ∈ batch, c.openTimeMs = time := by
  unfold Store.upsertCandles at h
  by_cases hempty : batch.isEmpty = true
  · rw [if_pos hempty] at h
    cases h
    simp [List.isEmpty_iff.mp hempty]
  · rw [if_neg hempty, bind_ok] at h
    obtain ⟨starts, hstarts, h⟩ := h
    have same_length := (mapM_ok.mp hstarts).length_eq
    cases hrows : upsertRows s.candles Table.empty ((batch.map (·.toText)).zip starts) with
    | mk candles changed =>
      simp only [hrows, pure, Except.pure, Except.ok.injEq, Prod.mk.injEq] at h
      obtain ⟨-, rfl⟩ := h
      have hframe := Store.markDirty_frame { s with candles := candles } changed.rows
      have written := @upsertRows_opensAt ((batch.map (·.toText)).zip starts) s.candles Table.empty time
      have firsts : ((batch.map (·.toText)).zip starts).map Prod.fst = batch.map (·.toText) :=
        List.map_fst_zip (by rw [List.length_map]; omega)
      have rows : (∃ row ∈ (batch.map (·.toText)).zip starts, row.1.openTimeMs = time) ↔
          ∃ c ∈ batch, c.openTimeMs = time := by
        have times : ((batch.map (·.toText)).zip starts).map (·.1.openTimeMs) =
            batch.map (·.openTimeMs) := by
          rw [← Function.comp_def (fun c : TextCandle => c.openTimeMs) Prod.fst, ← List.map_map,
            firsts, List.map_map]
          rfl
        rw [← List.mem_map, times, List.mem_map]
      rw [hrows, rows] at written
      rw [hframe.1]
      exact written

instance [DecimalParser] : LawfulCandleStore Store where
  holds s time := s.candles.opensAt time
  upsert_same market batch s t := by
    simp only [CandleStore.upsertCandles, Store.upsertCandles]
    split_ifs
    · rfl
    · cases batch.mapM fun c => Storage.windowStart market.interval c.openTimeMs <;> rfl
  upsert_ok := by
    intro market batch s t written h time
    simp only [CandleStore.upsertCandles] at h
    cases hupsert : s.upsertCandles market.interval batch with
    | error error => simp [hupsert] at h
    | ok next =>
      simp only [hupsert, Prod.mk.injEq, Except.ok.injEq] at h
      apply @upsertCandles_opensAt _ _ _ _ written
      rw [hupsert, ← h.1, ← h.2]
  upsert_error := by
    intro market batch s t error h
    simp only [CandleStore.upsertCandles] at h
    cases hupsert : s.upsertCandles market.interval batch with
    | error found =>
      simp only [hupsert, Prod.mk.injEq] at h
      exact h.2.symm
    | ok next => simp [hupsert] at h
  newest market s := by
    refine ⟨s.maxOpenTimeMs, rfl, ?_, ?_, ?_⟩
    · intro hnone time hholds
      obtain ⟨c, hc, -⟩ := hholds
      rw [Store.maxOpenTimeMs, Option.map_eq_none_iff, Table.highest_none] at hnone
      rw [hnone] at hc
      cases hc
    · intro t hsome
      obtain ⟨newest, hnewest, htime⟩ := Option.map_eq_some_iff.mp hsome
      exact ⟨newest, List.mem_of_getLast? hnewest, htime⟩
    · intro t time hsome hholds
      obtain ⟨newest, hnewest, htime⟩ := Option.map_eq_some_iff.mp hsome
      obtain ⟨c, hc, hopen⟩ := hholds
      have below := @Table.rising_last _ _ _ (fun row : TextCandle => row.openTimeMs.toInt)
        s.candles.rows newest c s.candles.rising hnewest hc
      rw [← htime, ← hopen, Int64.le_iff_toInt_le]
      exact below

theorem upsertRow_mem (candles : CandleTable) (row : TextCandle) :
    row ∈ (upsertRow candles row).1.rows := by
  unfold upsertRow
  split_ifs with hsame
  · exact ((Table.find_iff candles).mp hsame).1
  · exact (Table.mem_put candles).mpr (.inl rfl)

theorem upsertRow_kept {candles : CandleTable} {row other : TextCandle}
    (h : other ∈ candles.rows) (hne : other.openTimeMs ≠ row.openTimeMs) :
    other ∈ (upsertRow candles row).1.rows := by
  rcases upsertRow_cases candles row with hrow | hrow
  · rw [hrow]
    exact h
  · rw [hrow]
    exact (Table.mem_put candles).mpr (.inr ⟨h, fun hsame => hne (Int64.toInt_inj.mp hsame)⟩)

theorem upsertRows_kept {rows : List (TextCandle × Int64)} {candles : CandleTable}
    {changed : Table Int64.toInt} {other : TextCandle} (h : other ∈ candles.rows)
    (hne : ∀ row ∈ rows, row.1.openTimeMs ≠ other.openTimeMs) :
    other ∈ (upsertRows candles changed rows).1.rows := by
  induction rows generalizing candles changed with
  | nil => exact h
  | cons head rows ih =>
    obtain ⟨row, start⟩ := head
    obtain ⟨hfirst, hrest⟩ := List.forall_mem_cons.mp hne
    exact ih (upsertRow_kept h (Ne.symm hfirst)) hrest

theorem upsertRows_mem {rows : List (TextCandle × Int64)} {candles : CandleTable}
    {changed : Table Int64.toInt}
    (hapart : rows.Pairwise fun a b => a.1.openTimeMs ≠ b.1.openTimeMs) :
    ∀ row ∈ rows, row.1 ∈ (upsertRows candles changed rows).1.rows := by
  induction rows generalizing candles changed with
  | nil => simp
  | cons head rows ih =>
    obtain ⟨row, start⟩ := head
    obtain ⟨hfirst, hrest⟩ := List.pairwise_cons.mp hapart
    intro other hother
    rcases List.mem_cons.mp hother with rfl | hother
    · rw [upsertRows]
      exact upsertRows_kept (upsertRow_mem candles row) fun next hnext => (hfirst next hnext).symm
    · rw [upsertRows]
      exact ih hrest other hother

/-- The rows a batch is written as, each with its window's start. -/
theorem upsertCandles_rows {interval : Interval} {s t : Store} {batch : List Candle}
    {written : Nat} (h : s.upsertCandles interval batch = .ok (written, t)) :
    (∀ c ∈ batch, ∃ start, Storage.windowStart interval c.openTimeMs = .ok start) ∧
      ∃ rows changed, rows.map Prod.fst = batch.map Candle.toText ∧
        t.candles = (upsertRows s.candles changed rows).1 := by
  unfold Store.upsertCandles at h
  by_cases hempty : batch.isEmpty = true
  · rw [if_pos hempty] at h
    cases h
    rw [List.isEmpty_iff.mp hempty]
    exact ⟨by simp, [], Table.empty, rfl, rfl⟩
  · rw [if_neg hempty, bind_ok] at h
    obtain ⟨starts, hstarts, h⟩ := h
    have same_length := (mapM_ok.mp hstarts).length_eq
    cases hrows : upsertRows s.candles Table.empty ((batch.map (·.toText)).zip starts) with
    | mk candles changed =>
      simp only [hrows, pure, Except.pure, Except.ok.injEq, Prod.mk.injEq] at h
      obtain ⟨-, rfl⟩ := h
      refine ⟨fun c hc => ?_, (batch.map (·.toText)).zip starts, Table.empty,
        List.map_fst_zip (by rw [List.length_map]; omega), ?_⟩
      · obtain ⟨start, -, hstart⟩ := forall₂_mem (mapM_ok.mp hstarts) hc
        exact ⟨start, hstart⟩
      · rw [(Store.markDirty_frame { s with candles := candles } changed.rows).1, hrows]

theorem upsert_store [DecimalParser] {market : MarketId} {s t : Store} {batch : List Candle}
    {written : Nat} (h : CandleStore.upsertCandles market batch s = (.ok written, t)) :
    s.upsertCandles market.interval batch = .ok (written, t) := by
  simp only [CandleStore.upsertCandles] at h
  cases hupsert : s.upsertCandles market.interval batch with
  | error error => simp [hupsert] at h
  | ok next =>
    simp only [hupsert, Prod.mk.injEq, Except.ok.injEq] at h
    rw [← h.1, ← h.2]

instance [DecimalParser] : HoldingCandleStore Store where
  has s _ c := c.toText ∈ s.candles.rows
  windowed := by
    intro market batch s t count h c hc
    obtain ⟨start, hstart⟩ := (upsertCandles_rows (upsert_store h)).1 c hc
    obtain ⟨window, hwindow, -⟩ := Storage.windowStart_ok.mp hstart
    exact ⟨window, hwindow⟩
  written := by
    intro market batch s t count h hapart c hc
    obtain ⟨-, rows, changed, hrows, hcandles⟩ := upsertCandles_rows (upsert_store h)
    have htexts : (rows.map Prod.fst).Pairwise fun a b => a.openTimeMs ≠ b.openTimeMs := by
      rw [hrows, List.pairwise_map]
      exact hapart
    obtain ⟨row, hrow, htext⟩ : ∃ row ∈ rows, row.1 = c.toText := by
      rw [← List.mem_map, hrows]
      exact List.mem_map.mpr ⟨c, hc, rfl⟩
    rw [hcandles, ← htext]
    rw [List.pairwise_map] at htexts
    exact upsertRows_mem htexts row hrow
  kept := by
    intro market batch s t count c h hhas hne
    obtain ⟨-, rows, changed, hrows, hcandles⟩ := upsertCandles_rows (upsert_store h)
    rw [hcandles]
    apply upsertRows_kept hhas
    intro row hrow
    have hmem : row.1 ∈ batch.map Candle.toText := by
      rw [← hrows]
      exact List.mem_map.mpr ⟨row, hrow, rfl⟩
    obtain ⟨d, hd, htext⟩ := List.mem_map.mp hmem
    rw [← htext]
    exact hne d hd

theorem parse_openTimes [DecimalParser] {rows : List TextCandle} {candles : List Candle}
    (h : rows.mapM parseCandleRow = .ok candles) :
    candles.map (·.openTimeMs) = rows.map (·.openTimeMs) := by
  have parsed := mapM_ok.mp h
  induction parsed with
  | nil => rfl
  | @cons row c rows candles hparse hrest ih =>
    rw [List.map_cons, List.map_cons, parse_openTimeMs hparse, ih (mapM_ok.mpr hrest)]

instance [DecimalParser] : OrderedCandleStore Store where
  recent_rising := by
    intro market limit s candles h
    obtain ⟨newest, hnewest, hreverse⟩ := bind_ok.mp h
    have order : candles = newest.reverse := (Except.ok.inj hreverse).symm
    have times := parse_openTimes hnewest
    have falling : (newest.map (·.openTimeMs)).Pairwise fun a b => b < a := by
      rw [times, List.pairwise_map]
      refine List.Pairwise.sublist (List.take_sublist limit _) ?_
      rw [List.pairwise_reverse]
      exact s.candles.rising.imp fun hlt => Int64.lt_iff_toInt_lt.mpr hlt
    rw [order, List.pairwise_reverse]
    exact List.pairwise_map.mp falling

end QuantForge.Sqlite
