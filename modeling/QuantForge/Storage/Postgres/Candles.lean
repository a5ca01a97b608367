import QuantForge.Storage.Sqlite.Store

namespace QuantForge.Postgres

open Sqlite (CandleTable DirtyTable Mark)

/-- A candle of a batch, and the start of its window. -/
structure BatchRow where
  candle : TextCandle
  windowStartMs : Int64
  deriving DecidableEq

/-- A batch as one statement takes it: one row per open time, the last of its
duplicates, in the order of their open times; and the windows a duplicate that
differs from another marks, whatever the stored row holds. -/
structure Batch where
  rows : Table fun r : BatchRow => r.candle.openTimeMs.toInt
  forced : Table Int64.toInt

namespace Batch

def empty : Batch := ⟨Table.empty, Table.empty⟩

def insert (b : Batch) (candle : TextCandle) (windowStart : Int64) : Batch where
  rows := b.rows.put ⟨candle, windowStart⟩
  forced :=
    match b.rows.find candle.openTimeMs.toInt with
    -- written row by row, a duplicate that differs from the one before it
    -- changes the row, whatever was stored
    | some earlier => if earlier.candle ≠ candle then b.forced.put windowStart else b.forced
    | none => b.forced

/-- Adds candles one after another, or refuses one whose window cannot be
written. -/
def extend (interval : Interval) (b : Batch) : List Candle → Except StorageError Batch
  | [] => .ok b
  | candle :: candles => do
    let windowStart ← Storage.windowStart interval candle.openTimeMs
    extend interval (b.insert candle.toText windowStart) candles

/-- The batch for `candles`, or the refusal of a candle whose window cannot be
written, before anything is. -/
def of (interval : Interval) (candles : List Candle) : Except StorageError Batch :=
  extend interval empty candles

/-- The window of a row of the batch. -/
def windowOf (b : Batch) (openTimeMs : Int64) : Option Int64 :=
  (b.rows.find openTimeMs.toInt).map (·.windowStartMs)

/-- The windows of the rows a statement wrote, beside `windows`. -/
def written (b : Batch) (windows : Table Int64.toInt) :
    List Int64 → Except StorageError (Table Int64.toInt)
  | [] => .ok windows
  | openTimeMs :: rest =>
    match b.windowOf openTimeMs with
    | some window => b.written (windows.put window) rest
    | none => .error (.invalidArgument
      s!"the database wrote a candle at {openTimeMs}, which the batch does not hold")

end Batch

/-- `INSERT … ON CONFLICT … DO UPDATE … WHERE … RETURNING open_time_ms`: writes
the rows that are new or whose columns differ, and returns when they open. -/
def upsert (candles : CandleTable) (rows : List TextCandle) : CandleTable × List Int64 :=
  let changed := rows.filter fun row => candles.find row.openTimeMs.toInt ≠ some row
  (changed.foldl Table.put candles, changed.map (·.openTimeMs))

/-- One market's candles and marks, and the next number of the marks' sequence. -/
structure Store where
  candles : CandleTable
  dirty : DirtyTable
  nextId : Nat

namespace Store

/-- Marks a window. The insert takes a number, and the update of a mark
already there takes the next. -/
def mark (s : Store) (windowStartMs : Int64) : Store :=
  let id := if (s.dirty.find windowStartMs.toInt).isSome then s.nextId + 1 else s.nextId
  { s with dirty := s.dirty.put ⟨id, windowStartMs⟩, nextId := id + 1 }

def markOf (s : Store) (windowStartMs : Int64) : Option Mark := s.dirty.find windowStartMs.toInt

def markDirty (s : Store) (windowStarts : List Int64) : Store := windowStarts.foldl mark s

/-- Writes a batch and marks every window it changed, in one transaction.
Answers how many candles it was given. -/
def upsertCandles (interval : Interval) (s : Store) (candles : List Candle) :
    Except StorageError (Nat × Store) :=
  if candles.isEmpty then .ok (0, s)
  else do
    let batch ← Batch.of interval candles
    let (stored, returned) := upsert s.candles (batch.rows.rows.map (·.candle))
    let windows ← batch.written batch.forced returned
    return (candles.length, { s with candles := stored }.markDirty windows.rows)

end Store

end QuantForge.Postgres
