import Mathlib.Tactic.Common

namespace QuantForge

/-- One segment as the index lists it: the window it packs, the candles in it,
and its name, which is the digest of its payload. -/
structure SegmentRef where
  windowStartMs : Int64
  firstOpenMs : Int64
  lastOpenMs : Int64
  barCount : Nat
  hash : List UInt8
  payloadLen : Nat
  storedLen : Nat
  deriving DecidableEq

/-- Open times whose candles are read from the candle store, both bounds
included. -/
structure SegmentTip where
  firstOpenMs : Int64
  lastOpenMs : Int64
  deriving DecidableEq

/-- Where the candles of a range come from: the segments that hold them,
oldest first, then the tip, whose candles are read from the candle store. -/
structure SegmentPlan where
  segments : List SegmentRef
  tip : Option SegmentTip
  deriving DecidableEq

/-- What one refresh of a market's segments did, counted in windows: packed into
a new segment, repacked into the payload they had, or left unpacked because they
cannot be. -/
structure SegmentRefresh where
  built : Nat
  unchanged : Nat
  blocked : Nat
  deriving DecidableEq

def SegmentRefresh.none : SegmentRefresh := ⟨0, 0, 0⟩

end QuantForge
