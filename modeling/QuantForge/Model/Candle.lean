import QuantForge.Model.Decimal

namespace QuantForge

/-- A candle whose decimals are `α`: numbers, or the text they are stored
as. -/
structure CandleOf (α : Type) where
  openTimeMs : Int64
  closeTimeMs : Int64
  open_ : α
  high : α
  low : α
  close : α
  volume : α
  trades : Option UInt64
  deriving DecidableEq

abbrev Candle := CandleOf Decimal

/-- A candle as the stores keep it. -/
abbrev TextCandle := CandleOf String

namespace CandleOf

variable {α β γ : Type}

def map (f : α → β) (c : CandleOf α) : CandleOf β where
  openTimeMs := c.openTimeMs
  closeTimeMs := c.closeTimeMs
  open_ := f c.open_
  high := f c.high
  low := f c.low
  close := f c.close
  volume := f c.volume
  trades := c.trades

/-- Every decimal of the candle keeps `p`. -/
structure All (p : α → Prop) (c : CandleOf α) : Prop where
  open_ : p c.open_
  high : p c.high
  low : p c.low
  close : p c.close
  volume : p c.volume

@[simp] theorem map_openTimeMs (f : α → β) (c : CandleOf α) :
    (c.map f).openTimeMs = c.openTimeMs := rfl

theorem map_congr {f g : α → β} {c : CandleOf α} (h : c.All fun a => f a = g a) :
    c.map f = c.map g := by
  simp only [map, h.open_, h.high, h.low, h.close, h.volume]

end CandleOf

/-- The eight candle columns as plain vectors. -/
structure CandleColumns where
  openTimeMs : List Int64
  closeTimeMs : List Int64
  open_ : List Decimal
  high : List Decimal
  low : List Decimal
  close : List Decimal
  volume : List Decimal
  trades : List (Option UInt64)

namespace CandleColumns

/-- The columns after the open times, by name and length. -/
def lengths (c : CandleColumns) : List (String × Nat) :=
  [("close_time_ms", c.closeTimeMs.length), ("open", c.open_.length), ("high", c.high.length),
    ("low", c.low.length), ("close", c.close.length), ("volume", c.volume.length),
    ("trades", c.trades.length)]

/-- The first column that has not as many rows as the open times. -/
def misaligned (c : CandleColumns) : Option (String × Nat) :=
  c.lengths.find? fun (_, len) => len != c.openTimeMs.length

def ofCandles (candles : List Candle) : CandleColumns where
  openTimeMs := candles.map (·.openTimeMs)
  closeTimeMs := candles.map (·.closeTimeMs)
  open_ := candles.map (·.open_)
  high := candles.map (·.high)
  low := candles.map (·.low)
  close := candles.map (·.close)
  volume := candles.map (·.volume)
  trades := candles.map (·.trades)

end CandleColumns

/-- Candles stored column by column, every column the same length. -/
structure CandleBatch where
  columns : CandleColumns
  aligned : columns.misaligned = none

namespace CandleBatch

def fromColumns (columns : CandleColumns) : Except ModelError CandleBatch :=
  match h : columns.misaligned with
  | some (column, found) =>
    .error (.candleColumnLength column found columns.openTimeMs.length)
  | none => .ok ⟨columns, h⟩

/-- Reassembles the rows, in order. -/
def toCandles (b : CandleBatch) : List Candle :=
  let c := b.columns
  (((((((c.openTimeMs.zip c.closeTimeMs).zip c.open_).zip c.high).zip c.low).zip c.close).zip
    c.volume).zip c.trades).map fun
      (((((((openTimeMs, closeTimeMs), open_), high), low), close), volume), trades) =>
        ⟨openTimeMs, closeTimeMs, open_, high, low, close, volume, trades⟩

theorem fromColumns_ok {columns : CandleColumns} {b : CandleBatch} :
    fromColumns columns = .ok b ↔ b.columns = columns := by
  obtain ⟨own, aligned⟩ := b
  unfold fromColumns
  split
  · rename_i column found h
    simp only [reduceCtorEq, false_iff]
    rintro rfl
    rw [aligned] at h
    cases h
  · simp only [Except.ok.injEq, mk.injEq]
    exact eq_comm

theorem zip_fields {α β : Type} {xs : List α} {ys : List β} {n : Nat} (hx : xs.length = n)
    (hy : ys.length = n) :
    (xs.zip ys).length = n ∧ (xs.zip ys).map Prod.fst = xs ∧ (xs.zip ys).map Prod.snd = ys := by
  refine ⟨?_, List.map_fst_zip (by omega), List.map_snd_zip (by omega)⟩
  rw [List.length_zip]
  omega

/-- Splitting the rows into columns gives the columns back. -/
theorem ofCandles_toCandles (b : CandleBatch) : CandleColumns.ofCandles b.toCandles = b.columns := by
  obtain ⟨⟨times, closes, open_, high, low, close, volume, trades⟩, aligned⟩ := b
  simp only [CandleColumns.misaligned, CandleColumns.lengths, List.find?_eq_none, List.mem_cons,
    forall_eq_or_imp, bne_iff_ne, ne_eq, not_not, List.not_mem_nil, false_imp_iff, forall_const,
    and_true] at aligned
  obtain ⟨h1, h2, h3, h4, h5, h6, h7⟩ := aligned
  obtain ⟨l1, f1, s1⟩ := zip_fields (n := times.length) rfl h1
  obtain ⟨l2, f2, s2⟩ := zip_fields l1 h2
  obtain ⟨l3, f3, s3⟩ := zip_fields l2 h3
  obtain ⟨l4, f4, s4⟩ := zip_fields l3 h4
  obtain ⟨l5, f5, s5⟩ := zip_fields l4 h5
  obtain ⟨l6, f6, s6⟩ := zip_fields l5 h6
  obtain ⟨-, f7, s7⟩ := zip_fields l6 h7
  simp only [CandleColumns.ofCandles, toCandles, List.map_map, Function.comp_def,
    CandleColumns.mk.injEq]
  refine ⟨?_, ?_, ?_, ?_, ?_, ?_, ?_, s7⟩
  · conv_rhs => rw [← f1, ← f2, ← f3, ← f4, ← f5, ← f6, ← f7]
    simp only [List.map_map, Function.comp_def]
  · conv_rhs => rw [← s1, ← f2, ← f3, ← f4, ← f5, ← f6, ← f7]
    simp only [List.map_map, Function.comp_def]
  · conv_rhs => rw [← s2, ← f3, ← f4, ← f5, ← f6, ← f7]
    simp only [List.map_map, Function.comp_def]
  · conv_rhs => rw [← s3, ← f4, ← f5, ← f6, ← f7]
    simp only [List.map_map, Function.comp_def]
  · conv_rhs => rw [← s4, ← f5, ← f6, ← f7]
    simp only [List.map_map, Function.comp_def]
  · conv_rhs => rw [← s5, ← f6, ← f7]
    simp only [List.map_map, Function.comp_def]
  · conv_rhs => rw [← s6, ← f7]
    simp only [List.map_map, Function.comp_def]

/-- Joining the columns of rows gives the rows back. -/
theorem toCandles_ofCandles {b : CandleBatch} {candles : List Candle}
    (h : b.columns = CandleColumns.ofCandles candles) : b.toCandles = candles := by
  simp only [toCandles, h, CandleColumns.ofCandles]
  clear h
  induction candles with
  | nil => rfl
  | cons candle candles ih =>
    simp only [List.map_cons, List.zip_cons_cons, ih]

theorem ofCandles_aligned (candles : List Candle) :
    (CandleColumns.ofCandles candles).misaligned = none := by
  simp [CandleColumns.misaligned, CandleColumns.lengths, CandleColumns.ofCandles]

end CandleBatch

end QuantForge
