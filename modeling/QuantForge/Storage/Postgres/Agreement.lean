import QuantForge.Storage.Postgres.Candles
import QuantForge.Storage.Sqlite.Marks

namespace QuantForge.Postgres

open Sqlite (CandleTable Dated upsertRow upsertRows)

theorem upsertRow_same {candles : CandleTable} {row : TextCandle}
    (h : candles.find row.openTimeMs.toInt = some row) : upsertRow candles row = (candles, false) :=
  if_pos h

theorem upsertRow_differs {candles : CandleTable} {row : TextCandle}
    (h : candles.find row.openTimeMs.toInt ≠ some row) :
    upsertRow candles row = (candles.put row, true) := if_neg h

theorem upsertRow_find (candles : CandleTable) (row : TextCandle) (k : Int) :
    (upsertRow candles row).1.find k =
      if k = row.openTimeMs.toInt then some row else candles.find k := by
  by_cases hsame : candles.find row.openTimeMs.toInt = some row
  · rw [upsertRow_same hsame]
    split_ifs with hk
    · rw [hk, hsame]
    · rfl
  · rw [upsertRow_differs hsame]
    split_ifs with hk
    · rw [hk]
      exact candles.find_put row
    · exact candles.find_put_of_ne (Ne.symm hk)

namespace Batch

/-- A row of the batch that the stored table does not hold, in a window. -/
def Changes (stored : CandleTable) (b : Batch) (windowStart : Int64) : Prop :=
  ∃ row ∈ b.rows.rows, row.windowStartMs = windowStart ∧
    stored.find row.candle.openTimeMs.toInt ≠ some row.candle

/-- What rows written one after another into `stored` leave, `b` being the
batch of these rows: the batch's rows over the stored ones, and as changed the
windows that the batch forces and those of the rows it changes. -/
structure Follows (interval : Interval) (stored : CandleTable) (b : Batch) (candles : CandleTable)
    (changed : Table Int64.toInt) : Prop where
  found : ∀ k, candles.find k = ((b.rows.find k).map (·.candle)).or (stored.find k)
  changed : ∀ start, start ∈ changed.rows ↔ start ∈ b.forced.rows ∨ b.Changes stored start
  dated : ∀ row ∈ b.rows.rows,
    ∃ w, Segments.window interval row.candle.openTimeMs = some w ∧ w.start = row.windowStartMs

theorem follows_empty (interval : Interval) (stored : CandleTable) :
    empty.Follows interval stored stored Table.empty := by
  refine ⟨fun k => rfl, ?_, ?_⟩
  · intro start
    simp [empty, Table.empty, Changes]
  · intro row hrow
    cases hrow

theorem mem_insert {b : Batch} {candle : TextCandle} {start : Int64} {row : BatchRow} :
    row ∈ (b.insert candle start).rows.rows ↔ row = ⟨candle, start⟩ ∨
      row ∈ b.rows.rows ∧ row.candle.openTimeMs ≠ candle.openTimeMs := by
  rw [insert, Table.mem_put, ne_eq, Int64.toInt_inj]

theorem mem_forced {b : Batch} {candle : TextCandle} {start other : Int64} :
    other ∈ (b.insert candle start).forced.rows ↔ other ∈ b.forced.rows ∨ other = start ∧
      ∃ earlier, b.rows.find candle.openTimeMs.toInt = some earlier ∧ earlier.candle ≠ candle := by
  cases hfind : b.rows.find candle.openTimeMs.toInt with
  | none => simp [insert, hfind]
  | some earlier =>
    by_cases hdiffers : earlier.candle ≠ candle
    · simp only [insert, hfind, hdiffers, if_true, Table.mem_put, ne_eq, Int64.toInt_inj,
        Option.some.injEq, exists_eq_left', not_false_eq_true, and_true]
      tauto
    · simp [insert, hfind, hdiffers]

section Insert

variable {interval : Interval} {stored candles : CandleTable} {b : Batch}
  {changed : Table Int64.toInt} {row : TextCandle} {start other : Int64}

/-- A row of the batch that opens with another lies in its window. -/
theorem Follows.window (h : b.Follows interval stored candles changed)
    (hrow : ∃ w, Segments.window interval row.openTimeMs = some w ∧ w.start = start)
    {held : BatchRow} (hheld : held ∈ b.rows.rows) (hsame : held.candle.openTimeMs = row.openTimeMs) :
    held.windowStartMs = start := by
  obtain ⟨w, hw, hstart⟩ := hrow
  obtain ⟨v, hv, hvstart⟩ := h.dated held hheld
  rw [hsame, hw] at hv
  rw [← hvstart, ← hstart, Option.some.inj hv]

/-- A row that is already there changes nothing. -/
theorem changes_same (h : b.Follows interval stored candles changed)
    (hrow : ∃ w, Segments.window interval row.openTimeMs = some w ∧ w.start = start)
    (hsame : candles.find row.openTimeMs.toInt = some row) :
    (b.insert row start).Changes stored other ↔ b.Changes stored other := by
  have hfound := h.found row.openTimeMs.toInt
  rw [hsame] at hfound
  constructor
  · intro hchanges
    obtain ⟨new, hnew, hwindow, hdiffers⟩ := hchanges
    rcases mem_insert.mp hnew with rfl | ⟨hold, -⟩
    · cases hheld : b.rows.find row.openTimeMs.toInt with
      | none =>
        rw [hheld] at hfound
        exact absurd hfound.symm hdiffers
      | some held =>
        rw [hheld] at hfound
        have hcandle : row = held.candle := Option.some.inj hfound
        obtain ⟨hmem, hkey⟩ := b.rows.find_iff.mp hheld
        have hstart := h.window hrow hmem (Int64.toInt_inj.mp hkey)
        have hwindow : start = other := hwindow
        refine ⟨held, hmem, hstart.trans hwindow, ?_⟩
        rw [← hcandle]
        exact hdiffers
    · exact ⟨new, hold, hwindow, hdiffers⟩
  · intro hchanges
    obtain ⟨held, hmem, hwindow, hdiffers⟩ := hchanges
    by_cases hopen : held.candle.openTimeMs = row.openTimeMs
    · have hheld : b.rows.find row.openTimeMs.toInt = some held :=
        b.rows.find_iff.mpr ⟨hmem, congrArg Int64.toInt hopen⟩
      rw [hheld] at hfound
      have hcandle : row = held.candle := Option.some.inj hfound
      have hstart := h.window hrow hmem hopen
      refine ⟨⟨row, start⟩, mem_insert.mpr (.inl rfl), hstart.symm.trans hwindow, ?_⟩
      rw [hcandle]
      exact hdiffers
    · exact ⟨held, mem_insert.mpr (.inr ⟨hmem, hopen⟩), hwindow, hdiffers⟩

/-- A row changes no window but its own. -/
theorem changes_other (h : b.Follows interval stored candles changed)
    (hrow : ∃ w, Segments.window interval row.openTimeMs = some w ∧ w.start = start)
    (hother : other ≠ start) :
    (b.insert row start).Changes stored other ↔ b.Changes stored other := by
  constructor
  · intro hchanges
    obtain ⟨new, hnew, hwindow, hdiffers⟩ := hchanges
    rcases mem_insert.mp hnew with rfl | ⟨hold, -⟩
    · exact absurd hwindow.symm hother
    · exact ⟨new, hold, hwindow, hdiffers⟩
  · intro hchanges
    obtain ⟨held, hmem, hwindow, hdiffers⟩ := hchanges
    have hopen : held.candle.openTimeMs ≠ row.openTimeMs := by
      intro hopen
      apply hother
      rw [← hwindow, h.window hrow hmem hopen]
    exact ⟨held, mem_insert.mpr (.inr ⟨hmem, hopen⟩), hwindow, hdiffers⟩

/-- A row that differs from the one there changes its window: the batch held
that one, and forces the window, or the stored table did. -/
theorem changes_differs (h : b.Follows interval stored candles changed)
    (hdiffers : candles.find row.openTimeMs.toInt ≠ some row) :
    start ∈ (b.insert row start).forced.rows ∨ (b.insert row start).Changes stored start := by
  rw [h.found] at hdiffers
  cases hheld : b.rows.find row.openTimeMs.toInt with
  | none =>
    rw [hheld] at hdiffers
    exact .inr ⟨⟨row, start⟩, mem_insert.mpr (.inl rfl), rfl, hdiffers⟩
  | some held =>
    rw [hheld] at hdiffers
    left
    rw [mem_forced]
    refine .inr ⟨rfl, held, hheld, ?_⟩
    intro hcandle
    apply hdiffers
    rw [← hcandle]
    rfl

/-- A duplicate that is already there forces nothing. -/
theorem forced_same (h : b.Follows interval stored candles changed)
    (hsame : candles.find row.openTimeMs.toInt = some row) :
    other ∈ (b.insert row start).forced.rows ↔ other ∈ b.forced.rows := by
  rw [mem_forced]
  constructor
  · intro hforced
    rcases hforced with hforced | ⟨-, held, hheld, hdiffers⟩
    · exact hforced
    · rw [h.found, hheld] at hsame
      exact absurd (Option.some.inj hsame) hdiffers
  · exact .inl

/-- One row written is one row added to the batch. -/
theorem follows_insert (h : b.Follows interval stored candles changed)
    (hrow : ∃ w, Segments.window interval row.openTimeMs = some w ∧ w.start = start) :
    (b.insert row start).Follows interval stored (upsertRow candles row).1
      (if (upsertRow candles row).2 then changed.put start else changed) := by
  refine ⟨?_, ?_, ?_⟩
  · intro k
    rw [upsertRow_find]
    by_cases hk : k = row.openTimeMs.toInt
    · have hput : (b.insert row start).rows.find k = some ⟨row, start⟩ := by
        rw [hk]
        exact b.rows.find_put ⟨row, start⟩
      rw [if_pos hk, hput]
      rfl
    · have hput : (b.insert row start).rows.find k = b.rows.find k :=
        b.rows.find_put_of_ne (Ne.symm hk)
      rw [if_neg hk, hput, h.found]
  · intro other
    by_cases hsame : candles.find row.openTimeMs.toInt = some row
    · rw [upsertRow_same hsame, forced_same h hsame, changes_same h hrow hsame]
      exact h.changed other
    · rw [upsertRow_differs hsame, if_pos rfl, Table.mem_put, ne_eq, Int64.toInt_inj]
      by_cases hother : other = start
      · rw [hother]
        exact iff_of_true (.inl rfl) (changes_differs h hsame)
      · rw [mem_forced, changes_other h hrow hother, h.changed]
        simp [hother]
  · intro held hheld
    rcases mem_insert.mp hheld with rfl | ⟨hold, -⟩
    · exact hrow
    · exact h.dated held hold

end Insert

/-- A batch extended by candles, as their rows written one after another. -/
theorem extend_follows {interval : Interval} {stored : CandleTable} {batch : List Candle}
    {starts : List Int64}
    (hstarts : (batch.mapM fun c => Storage.windowStart interval c.openTimeMs) = .ok starts)
    {b : Batch} {candles : CandleTable} {changed : Table Int64.toInt}
    (h : b.Follows interval stored candles changed) :
    ∃ extended : Batch, extend interval b batch = .ok extended ∧
      extended.Follows interval stored
        (upsertRows candles changed ((batch.map (·.toText)).zip starts)).1
        (upsertRows candles changed ((batch.map (·.toText)).zip starts)).2 := by
  have hpairs := mapM_ok.mp hstarts
  clear hstarts
  induction hpairs generalizing b candles changed with
  | nil => exact ⟨b, rfl, h⟩
  | @cons candle start _ _ hfirst _ ih =>
    have hrow : ∃ w, Segments.window interval candle.toText.openTimeMs = some w ∧
        w.start = start := Storage.windowStart_ok.mp hfirst
    obtain ⟨extended, hextend, hfollows⟩ := ih (follows_insert h hrow)
    refine ⟨extended, ?_, hfollows⟩
    rw [extend, hfirst]
    exact hextend

/-- A batch refuses what the rows' windows refuse. -/
theorem extend_error {interval : Interval} {batch : List Candle} {error : StorageError}
    (h : (batch.mapM fun c => Storage.windowStart interval c.openTimeMs) = .error error)
    (b : Batch) : extend interval b batch = .error error := by
  induction batch generalizing b with
  | nil => cases h
  | cons candle batch ih =>
    rw [List.mapM_cons, bind_error] at h
    rw [extend, bind_error]
    rcases h with hfirst | ⟨start, hfirst, hrest⟩
    · exact .inl hfirst
    · rw [bind_error] at hrest
      rcases hrest with hrest | ⟨starts, -, hpure⟩
      · exact .inr ⟨start, hfirst, ih hrest _⟩
      · cases hpure

/-- Each row the statement wrote is one of the batch's, so its window is found. -/
theorem written_ok {b : Batch} {opens : List Int64} (windows : Table Int64.toInt)
    (h : ∀ t ∈ opens, ∃ row ∈ b.rows.rows, row.candle.openTimeMs = t) :
    ∃ all, b.written windows opens = .ok all ∧ ∀ start, start ∈ all.rows ↔
      start ∈ windows.rows ∨ ∃ row ∈ b.rows.rows, row.windowStartMs = start ∧
        row.candle.openTimeMs ∈ opens := by
  induction opens generalizing windows with
  | nil => exact ⟨windows, rfl, by simp⟩
  | cons t opens ih =>
    obtain ⟨row, hrow, hopen⟩ := h t (by simp)
    have hfind : b.rows.find t.toInt = some row :=
      b.rows.find_iff.mpr ⟨hrow, congrArg Int64.toInt hopen⟩
    have hrest := ih (windows.put row.windowStartMs)
      fun u hu => h u (List.mem_cons_of_mem t hu)
    obtain ⟨all, hall, hmem⟩ := hrest
    refine ⟨all, ?_, ?_⟩
    · rw [written, windowOf, hfind]
      exact hall
    · intro start
      rw [hmem, Table.mem_put, ne_eq, Int64.toInt_inj]
      constructor
      · intro hstart
        rcases hstart with (hput | ⟨hold, -⟩) | ⟨other, hother, hwindow, hlater⟩
        · exact .inr ⟨row, hrow, hput.symm, by simp [hopen]⟩
        · exact .inl hold
        · exact .inr ⟨other, hother, hwindow, List.mem_cons_of_mem t hlater⟩
      · intro hstart
        by_cases hput : start = row.windowStartMs
        · exact .inl (.inl hput)
        · rcases hstart with hold | ⟨other, hother, hwindow, hopens⟩
          · exact .inl (.inr ⟨hold, hput⟩)
          · rcases List.mem_cons.mp hopens with hsame | hlater
            · have hrows : other = row := b.rows.key_injective hother hrow
                (congrArg Int64.toInt (hsame.trans hopen.symm))
              rw [← hwindow, hrows] at hput
              exact absurd rfl hput
            · exact .inr ⟨other, hother, hwindow, hlater⟩

end Batch

/-- The statement's rows over the stored ones. -/
theorem upsert_find (candles rows : CandleTable) (k : Int) :
    (upsert candles rows.rows).1.find k = (rows.find k).or (candles.find k) := by
  let differs : TextCandle → Bool := fun row => candles.find row.openTimeMs.toInt ≠ some row
  have hput : (upsert candles rows.rows).1.find k =
      ((rows.keep differs).find k).or (candles.find k) :=
    candles.find_foldl_put (rows.keep differs).rising k
  rw [hput]
  cases hfind : rows.find k with
  | none =>
    have hnone : (rows.keep differs).find k = none := by
      rw [Table.find_none] at hfind ⊢
      intro row hrow
      exact hfind row (rows.mem_keep.mp hrow).1
    rw [hnone]
  | some row =>
    obtain ⟨hrow, hk⟩ := rows.find_iff.mp hfind
    by_cases hsame : candles.find k = some row
    · rw [hsame]
      cases hkept : (rows.keep differs).find k with
      | none => rfl
      | some other =>
        obtain ⟨hmem, hother⟩ := (Table.find_iff _).mp hkept
        have hrows := rows.key_injective (rows.mem_keep.mp hmem).1 hrow (hother.trans hk.symm)
        rw [hrows, Option.some_or]
    · have hkept : (rows.keep differs).find k = some row := by
        rw [Table.find_iff, Table.mem_keep]
        refine ⟨⟨hrow, ?_⟩, hk⟩
        simpa [differs, hk] using hsame
      rw [hkept, Option.some_or]

namespace Batch

/-- The candles of a batch. -/
def candles (b : Batch) : CandleTable :=
  ⟨b.rows.rows.map (·.candle), List.pairwise_map.mpr b.rows.rising⟩

theorem candles_find (b : Batch) (k : Int) :
    b.candles.find k = (b.rows.find k).map (·.candle) := List.find?_map

/-- One statement and the forced windows leave and mark what the rows written
one after another do. -/
theorem Follows.agrees {interval : Interval} {stored candles : CandleTable} {b : Batch}
    {changed : Table Int64.toInt} (h : b.Follows interval stored candles changed) :
    (upsert stored (b.rows.rows.map (·.candle))).1 = candles ∧
      b.written b.forced (upsert stored (b.rows.rows.map (·.candle))).2 = .ok changed := by
  refine ⟨?_, ?_⟩
  · apply Table.ext_find
    intro k
    rw [h.found, ← b.candles_find]
    exact upsert_find stored b.candles k
  · have hreturned : ∀ t, t ∈ (upsert stored (b.rows.rows.map (·.candle))).2 ↔
        ∃ row ∈ b.rows.rows, row.candle.openTimeMs = t ∧
          stored.find row.candle.openTimeMs.toInt ≠ some row.candle := by
      intro t
      simp only [upsert, List.mem_map, List.mem_filter, decide_eq_true_eq]
      constructor
      · rintro ⟨-, ⟨⟨row, hrow, rfl⟩, hdiffers⟩, hopen⟩
        exact ⟨row, hrow, hopen, hdiffers⟩
      · rintro ⟨row, hrow, hopen, hdiffers⟩
        exact ⟨row.candle, ⟨⟨row, hrow, rfl⟩, hdiffers⟩, hopen⟩
    obtain ⟨all, hall, hmem⟩ := written_ok b.forced fun t ht => by
      obtain ⟨row, hrow, hopen, -⟩ := (hreturned t).mp ht
      exact ⟨row, hrow, hopen⟩
    rw [hall]
    congr 1
    apply Table.ext_rows
    intro start
    rw [hmem, h.changed]
    apply or_congr_right
    constructor
    · rintro ⟨row, hrow, hwindow, hreturn⟩
      obtain ⟨other, hother, hopen, hdiffers⟩ := (hreturned _).mp hreturn
      have hrows := b.rows.key_injective hother hrow (congrArg Int64.toInt hopen)
      rw [hrows] at hdiffers
      exact ⟨row, hrow, hwindow, hdiffers⟩
    · rintro ⟨row, hrow, hwindow, hdiffers⟩
      exact ⟨row, hrow, hwindow, (hreturned _).mpr ⟨row, hrow, rfl, hdiffers⟩⟩

end Batch

namespace Store

/-- Marking changes nothing but marks. -/
theorem markDirty_candles (s : Store) (starts : List Int64) :
    (s.markDirty starts).candles = s.candles ∧ s.nextId ≤ (s.markDirty starts).nextId := by
  induction starts generalizing s with
  | nil => exact ⟨rfl, le_rfl⟩
  | cons start starts ih =>
    obtain ⟨hcandles, hnext⟩ := ih (s.mark start)
    have hstep : s.nextId ≤ (s.mark start).nextId := by
      simp only [mark]
      split_ifs <;> omega
    exact ⟨hcandles, hstep.trans hnext⟩

/-- A window that is not marked keeps the mark it had. -/
theorem markOf_markDirty_of_notMem {s : Store} {starts : List Int64} {start : Int64}
    (h : start ∉ starts) : (s.markDirty starts).markOf start = s.markOf start := by
  induction starts generalizing s with
  | nil => rfl
  | cons first starts ih =>
    simp only [List.mem_cons, not_or] at h
    have hrest : (s.markDirty (first :: starts)).markOf start = (s.mark first).markOf start := ih h.2
    rw [hrest]
    apply Table.find_put_of_ne
    intro hkey
    exact h.1 (Int64.toInt_inj.mp hkey).symm

/-- A marked window has a mark whose id was never given out before. -/
theorem markOf_markDirty {s : Store} {starts : List Int64} {start : Int64} (h : start ∈ starts) :
    ∃ m, (s.markDirty starts).markOf start = some m ∧ s.nextId ≤ m.id := by
  induction starts generalizing s with
  | nil => simp at h
  | cons first starts ih =>
    have hstep : s.nextId ≤ (s.mark first).nextId := (s.markDirty_candles [first]).2
    by_cases hlater : start ∈ starts
    · obtain ⟨m, hm, hid⟩ := ih (s := s.mark first) hlater
      exact ⟨m, hm, hstep.trans hid⟩
    · have hfirst : start = first := by simpa [hlater] using h
      subst hfirst
      have hrest : (s.markDirty (start :: starts)).markOf start = (s.mark start).markOf start :=
        markOf_markDirty_of_notMem hlater
      rw [hrest]
      refine ⟨_, Table.find_put _ _, ?_⟩
      simp only
      split_ifs <;> omega

end Store

/-- Two stores that hold the same candles of a market take a batch alike:
PostgreSQL refuses what SQLite refuses, with the same error and nothing
written, and otherwise leaves the same candles and gives a new mark to the
same windows. -/
theorem upsertCandles_agree (interval : Interval) (candles : CandleTable) (s : Sqlite.Store)
    (p : Store) (batch : List Candle) :
    (∃ error, { s with candles := candles }.upsertCandles interval batch = .error error ∧
      { p with candles := candles }.upsertCandles interval batch = .error error) ∨
    ∃ (changed : List Int64) (s' : Sqlite.Store) (p' : Store),
      { s with candles := candles }.upsertCandles interval batch = .ok (batch.length, s') ∧
      { p with candles := candles }.upsertCandles interval batch = .ok (batch.length, p') ∧
      s'.candles = p'.candles ∧
      ∀ start : Int64,
        (start ∈ changed ∧ (∃ m, s'.markOf start = some m ∧ s.nextId ≤ m.id) ∧
          ∃ m, p'.markOf start = some m ∧ p.nextId ≤ m.id) ∨
        (start ∉ changed ∧ s'.markOf start = s.markOf start ∧ p'.markOf start = p.markOf start) := by
  by_cases hempty : batch.isEmpty = true
  · right
    have hnone := List.isEmpty_iff.mp hempty
    refine ⟨[], { s with candles := candles }, { p with candles := candles }, ?_, ?_, rfl, ?_⟩
    · rw [Sqlite.Store.upsertCandles, if_pos hempty, hnone]
      rfl
    · rw [Store.upsertCandles, if_pos hempty, hnone]
      rfl
    · intro start
      exact .inr ⟨by simp, rfl, rfl⟩
  · cases hstarts : batch.mapM fun c => Storage.windowStart interval c.openTimeMs with
    | error error =>
      left
      refine ⟨error, ?_, ?_⟩
      · rw [Sqlite.Store.upsertCandles, if_neg hempty, hstarts]
        rfl
      · rw [Store.upsertCandles, if_neg hempty, Batch.of, Batch.extend_error hstarts]
        rfl
    | ok starts =>
      right
      have hextended := Batch.extend_follows hstarts (Batch.follows_empty interval candles)
      obtain ⟨extended, hextend, hfollows⟩ := hextended
      obtain ⟨hrows, hwritten⟩ := hfollows.agrees
      cases hupserted : upsertRows candles Table.empty ((batch.map (·.toText)).zip starts) with
      | mk written changed =>
        rw [hupserted] at hrows hwritten
        refine ⟨changed.rows, { s with candles := written }.markDirty changed.rows,
          { p with candles := written }.markDirty changed.rows, ?_, ?_, ?_, ?_⟩
        · rw [Sqlite.Store.upsertCandles, if_neg hempty, hstarts]
          simp only [bind, Except.bind, hupserted]
          rfl
        · rw [Store.upsertCandles, if_neg hempty, Batch.of, hextend]
          simp only [bind, Except.bind, hwritten, hrows]
          rfl
        · have hs := (Sqlite.Store.markDirty_frame { s with candles := written } changed.rows).1
          have hp := (Store.markDirty_candles { p with candles := written } changed.rows).1
          rw [hs, hp]
        · intro start
          by_cases hmarked : start ∈ changed.rows
          · exact .inl ⟨hmarked, Sqlite.Store.markOf_markDirty hmarked,
              Store.markOf_markDirty hmarked⟩
          · exact .inr ⟨hmarked, Sqlite.Store.markOf_markDirty_of_notMem hmarked,
              Store.markOf_markDirty_of_notMem hmarked⟩

end QuantForge.Postgres
