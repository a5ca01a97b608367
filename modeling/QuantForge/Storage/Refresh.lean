import QuantForge.Framework.Prog
import QuantForge.Model.Segment
import QuantForge.Storage.Common
import QuantForge.Storage.Segments.Open

namespace QuantForge.Refresh

/-- A dirty window as one snapshot saw it: its mark, its candles, and the name
it is indexed under, if any. -/
structure Snapshot where
  id : Nat
  candles : List TextCandle
  indexed : Option (List UInt8)
  deriving DecidableEq

/-- What writing a window back does: index it under a new segment, keep its
entry, or clear the entry of a window without candles. -/
inductive Packed
  | write (hash : List UInt8) (payloadLen : Nat) (stored : List UInt8)
      (firstOpenMs lastOpenMs : Int64) (barCount : Nat)
  | keep
  | clear
  deriving DecidableEq

/-- How a write went: another refresh unmarked the window first, or a writer
marked it again after the snapshot. -/
inductive Written
  | done
  | elsewhere
  | marked
  deriving DecidableEq

/-- Packs a snapshot's candles, outside any transaction. -/
def pack [DecimalParser] [Sha256] [Segments.Zstd] (snapshot : Snapshot) :
    Except Segments.SegmentError Packed :=
  match snapshot.candles.head?, snapshot.candles.getLast? with
  | some first, some last => do
    let payload ← Segments.encodeText snapshot.candles
    let hash := Sha256.digest payload
    if snapshot.indexed = some hash then return .keep
    let stored ← Segments.compress payload
    return .write hash payload.length stored first.openTimeMs last.openTimeMs
      snapshot.candles.length
  | _, _ => .ok .clear

/-- Refuses a range that ends before it starts. -/
def checkRange (firstOpenMs lastOpenMs : Int64) : Except StorageError Unit :=
  if lastOpenMs < firstOpenMs then
    .error (.invalidArgument
      s!"the first open time {firstOpenMs} is after the last, {lastOpenMs}")
  else .ok ()

/-- The plan of a market without candles: the whole range is tip. -/
def allTip (firstOpenMs lastOpenMs : Int64) : SegmentPlan := ⟨[], some ⟨firstOpenMs, lastOpenMs⟩⟩

/-- Where a plan stops trusting the index: at the tip window, or at the lowest
dirty window below it. -/
def tipStart (tipWindow : Int64) (lowestDirty : Option Int64) : Int64 :=
  match lowestDirty with
  | some dirty => min dirty tipWindow
  | none => tipWindow

/-- The plan of a range: the entries below `tipStart` that overlap it, then
whatever of it lies from `tipStart` on. -/
def plan (segments : List SegmentRef) (tipStart firstOpenMs lastOpenMs : Int64) : SegmentPlan where
  segments := segments
  tip := if tipStart ≤ lastOpenMs then some ⟨max firstOpenMs tipStart, lastOpenMs⟩ else none

/-- How often a window is read again when a writer keeps marking it between the
read and the write. -/
def attempts : Nat := 3

/-- A backend's side of a refresh: where the tip is, which windows are dirty, and
reading and writing back one of them. -/
class DirtyWindows (S : Type) where
  tipWindow : Interval → Prog S StorageError (Option Int64)
  nextDirty : Option Int64 → Int64 → Prog S StorageError (Option Int64)
  readWindow : Segments.Window → Prog S StorageError (Option Snapshot)
  writeWindow : Int64 → Nat → Packed → Prog S StorageError Written

/-- What became of one dirty window: indexed under a new segment, packed to the
segment it has, not packable and so still dirty, packed by another refresh first,
or marked again and again and so still dirty. -/
inductive Built
  | new
  | same
  | blocked (error : Segments.SegmentError)
  | elsewhere
  | busy

/-- What writing a packed window back makes of it. -/
def Packed.built : Packed → Built
  | .keep => .same
  | .write .. | .clear => .new

/-- The count with one more window. -/
def Built.count (refresh : SegmentRefresh) : Built → SegmentRefresh
  | .new => { refresh with built := refresh.built + 1 }
  | .same => { refresh with unchanged := refresh.unchanged + 1 }
  | .blocked _ => { refresh with blocked := refresh.blocked + 1 }
  | .elsewhere | .busy => refresh

section

variable {S : Type} [DirtyWindows S] [DecimalParser] [Sha256] [Segments.Zstd]

/-- Reads, packs and writes a window back, again while it is marked meanwhile. -/
def tryWindow (window : Segments.Window) : Nat → Prog S StorageError Built
  | 0 => pure .busy
  | left + 1 => do
    match ← DirtyWindows.readWindow window with
    | none => pure .elsewhere
    | some snapshot =>
      match pack snapshot with
      | .error error => pure (.blocked error)
      | .ok packed => do
        match ← DirtyWindows.writeWindow window.start snapshot.id packed with
        | .done => pure packed.built
        | .elsewhere => pure .elsewhere
        | .marked => tryWindow window left

def buildWindow (interval : Interval) (windowStart : Int64) : Prog S StorageError Built :=
  match Segments.window interval windowStart with
  | none => Prog.ofExcept (.error (Storage.outOfRange windowStart))
  | some window => tryWindow window attempts

/-- Packs the dirty windows after `after`, below the tip window; none where `fuel`
runs out before they do. -/
def refreshAfter (interval : Interval) (tipWindow : Int64) :
    Nat → Option Int64 → SegmentRefresh → Prog S StorageError (Option SegmentRefresh)
  | 0, _, _ => pure none
  | fuel + 1, after, refresh => do
    match ← DirtyWindows.nextDirty after tipWindow with
    | none => pure (some refresh)
    | some windowStart => do
      let built ← buildWindow interval windowStart
      refreshAfter interval tipWindow fuel (some windowStart) (built.count refresh)

/-- Packs every dirty window below the tip. -/
def refresh (interval : Interval) (fuel : Nat) : Prog S StorageError (Option SegmentRefresh) := do
  match ← DirtyWindows.tipWindow interval with
  | none => pure (some SegmentRefresh.none)
  | some tipWindow => refreshAfter interval tipWindow fuel none SegmentRefresh.none

end

end QuantForge.Refresh
