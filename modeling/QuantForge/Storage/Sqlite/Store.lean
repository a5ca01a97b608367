import QuantForge.Framework.Table
import QuantForge.Storage.Common

namespace QuantForge.Sqlite

/-- A market's candles, by open time. -/
abbrev CandleTable := Table fun c : TextCandle => c.openTimeMs.toInt

/-- A mark that a writer left on a window whose candles changed. -/
structure Mark where
  id : Nat
  windowStartMs : Int64
  deriving DecidableEq

abbrev DirtyTable := Table fun m : Mark => m.windowStartMs.toInt

/-- Which segment packs a window. -/
structure Entry where
  windowStartMs : Int64
  firstOpenMs : Int64
  lastOpenMs : Int64
  barCount : Nat
  hash : List UInt8
  deriving DecidableEq

abbrev IndexTable := Table fun e : Entry => e.windowStartMs.toInt

/-- A packed segment, by the digest that names it. -/
structure Segment where
  hash : List UInt8
  format : UInt32
  payloadLen : Nat
  data : List UInt8
  deriving DecidableEq

/-- The rows of one market, and the packed segments. `nextId` is the id
after every mark's, one that was never given out. -/
structure Store where
  candles : CandleTable
  dirty : DirtyTable
  nextId : Nat
  index : IndexTable
  segments : List Segment

namespace Store

def empty : Store := ⟨Table.empty, Table.empty, 1, Table.empty, []⟩

def segment (s : Store) (hash : List UInt8) : Option Segment :=
  s.segments.find? fun segment => segment.hash == hash

/-- A segment whose name is taken is not written again. -/
def insertSegment (s : Store) (segment : Segment) : Store :=
  if (s.segment segment.hash).isSome then s else { s with segments := s.segments ++ [segment] }

/-- Marks a window. A mark already there is replaced, so it gets a new id. -/
def mark (s : Store) (windowStartMs : Int64) : Store :=
  { s with dirty := s.dirty.put ⟨s.nextId, windowStartMs⟩, nextId := s.nextId + 1 }

/-- Marks the windows starting at `windowStarts` dirty, inside the
transaction that changed their candles. -/
def markDirty (s : Store) (windowStarts : List Int64) : Store := windowStarts.foldl mark s

def markOf (s : Store) (windowStartMs : Int64) : Option Mark := s.dirty.find windowStartMs.toInt

def entryOf (s : Store) (windowStartMs : Int64) : Option Entry := s.index.find windowStartMs.toInt

/-- The candles whose open time satisfies `p`, in its order. -/
def select (s : Store) (p : Int64 → Bool) : List TextCandle :=
  s.candles.rows.filter fun c => p c.openTimeMs

end Store

end QuantForge.Sqlite

namespace QuantForge

/-- The stored text of a candle. -/
def Candle.toText (c : Candle) : TextCandle := c.map Decimal.toText

namespace Sqlite

/-- Inserts a candle, or updates the one that opens at its time, and says
whether a column changed. -/
def upsertRow (candles : CandleTable) (row : TextCandle) : CandleTable × Bool :=
  if candles.find row.openTimeMs.toInt = some row then (candles, false)
  else (candles.put row, true)

/-- The candles of a batch one after another, and the starts of the windows
they changed. -/
def upsertRows (candles : CandleTable) (changed : Table Int64.toInt) :
    List (TextCandle × Int64) → CandleTable × Table Int64.toInt
  | [] => (candles, changed)
  | (row, windowStart) :: rows =>
    let (written, change) := upsertRow candles row
    upsertRows written (if change then changed.put windowStart else changed) rows

namespace Store

/-- Writes a batch and marks every window it changed, in one transaction.
Answers how many candles it wrote. -/
def upsertCandles (interval : Interval) (s : Store) (batch : List Candle) :
    Except StorageError (Nat × Store) :=
  if batch.isEmpty then .ok (0, s)
  else do
    let windowStarts ← batch.mapM fun c => Storage.windowStart interval c.openTimeMs
    let (candles, changed) := upsertRows s.candles Table.empty ((batch.map (·.toText)).zip windowStarts)
    return (batch.length, { s with candles := candles }.markDirty changed.rows)

end Store

section

variable [DecimalParser]

def parseCandleRow (row : TextCandle) : Except StorageError Candle := do
  let open_ ← Storage.readDecimal row.open_
  let high ← Storage.readDecimal row.high
  let low ← Storage.readDecimal row.low
  let close ← Storage.readDecimal row.close
  let volume ← Storage.readDecimal row.volume
  return ⟨row.openTimeMs, row.closeTimeMs, open_, high, low, close, volume, row.trades⟩

/-- The candles of a query, in the order of their open times. -/
def Store.loadCandles (s : Store) (query : CandleQuery) : Except StorageError (List Candle) :=
  let rows := s.select query.admits
  (match query.limit with
    | some limit => rows.take limit
    | none => rows).mapM parseCandleRow

end

end Sqlite

end QuantForge
