import QuantForge.Storage.Refresh
import QuantForge.Storage.Sqlite.Store

namespace QuantForge.Sqlite.Store

open Refresh

/-- The start of the window holding the market's newest candle. None without
candles. -/
def tipWindow (interval : Interval) (s : Store) : Except StorageError (Option Int64) :=
  match s.candles.highest with
  | none => .ok none
  | some newest => do
    let start ← Storage.windowStart interval newest.openTimeMs
    return some start

/-- The lowest dirty window after `after`, below the tip window. -/
def nextDirty (s : Store) (after : Option Int64) (tipWindow : Int64) : Option Int64 :=
  (s.dirty.rows.find? fun mark =>
    mark.windowStartMs < tipWindow && after.all (· < mark.windowStartMs)).map (·.windowStartMs)

/-- Reads a dirty window in one snapshot. None when it is no longer marked. -/
def readWindow (s : Store) (window : Segments.Window) : Option Snapshot :=
  (s.markOf window.start).map fun mark =>
    ⟨mark.id, s.select window.contains, (s.entryOf window.start).map (·.hash)⟩

/-- What a packed window leaves in the index and among the segments. -/
def apply (s : Store) (windowStartMs : Int64) : Packed → Store
  | .write hash payloadLen stored firstOpenMs lastOpenMs barCount =>
    let inserted := s.insertSegment ⟨hash, Segments.format, payloadLen, stored⟩
    { inserted with
      index := inserted.index.put ⟨windowStartMs, firstOpenMs, lastOpenMs, barCount, hash⟩ }
  | .keep => s
  | .clear => { s with index := s.index.erase windowStartMs.toInt }

def unmark (s : Store) (id : Nat) : Store :=
  { s with dirty := s.dirty.keep fun mark => mark.id ≠ id }

/-- Writes a packed window back and unmarks it, if it still carries the mark
the snapshot read: then no candle of it changed since. -/
def writeWindow (s : Store) (windowStartMs : Int64) (id : Nat) (packed : Packed) :
    Written × Store :=
  match s.markOf windowStartMs with
  | none => (.elsewhere, s)
  | some current =>
    if current.id ≠ id then (.marked, s)
    else (.done, (s.apply windowStartMs packed).unmark id)

/-- An entry with the size of the segment it names. -/
def segmentRef (s : Store) (entry : Entry) : Option SegmentRef :=
  (s.segment entry.hash).map fun segment =>
    ⟨entry.windowStartMs, entry.firstOpenMs, entry.lastOpenMs, entry.barCount, entry.hash,
      segment.payloadLen, segment.data.length⟩

/-- Whether a plan of a range lists an entry. -/
def listed (tipStart firstOpenMs lastOpenMs : Int64) (entry : Entry) : Bool :=
  entry.windowStartMs < tipStart && firstOpenMs ≤ entry.lastOpenMs && entry.firstOpenMs ≤ lastOpenMs

/-- Where the candles of a range come from. -/
def resolveSegments (interval : Interval) (s : Store) (firstOpenMs lastOpenMs : Int64) :
    Except StorageError SegmentPlan := do
  let _ ← checkRange firstOpenMs lastOpenMs
  match ← s.tipWindow interval with
  | none => return allTip firstOpenMs lastOpenMs
  | some tipWindow =>
    let start := tipStart tipWindow (s.dirty.lowest.map (·.windowStartMs))
    let segments := (s.index.rows.filter (listed start firstOpenMs lastOpenMs)).filterMap s.segmentRef
    return plan segments start firstOpenMs lastOpenMs

def loadSegment (s : Store) (hash : List UInt8) : Option (List UInt8) :=
  (s.segment hash).map (·.data)

/-- The candles of a listed segment, as a caller fetches and opens it. None
where the store has no such segment. -/
def fetch [DecimalParser] [Sha256] [Segments.Zstd] (s : Store) (hash : List UInt8) :
    Option (Except Segments.SegmentError (List Candle)) :=
  (s.loadSegment hash).map fun bytes => Segments.open_ bytes hash

instance : DirtyWindows Store where
  tipWindow interval s := (tipWindow interval s, s)
  nextDirty after tipWindow s := (.ok (s.nextDirty after tipWindow), s)
  readWindow window s := (.ok (s.readWindow window), s)
  writeWindow windowStartMs id packed s :=
    (.ok (s.writeWindow windowStartMs id packed).1, (s.writeWindow windowStartMs id packed).2)

end QuantForge.Sqlite.Store
