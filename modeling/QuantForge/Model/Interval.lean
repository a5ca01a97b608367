import QuantForge.Model.TextParts

namespace QuantForge

/-- The candle interval grid. -/
inductive Interval
  | s1 | m1 | m3 | m5 | m15 | m30 | h1 | h2 | h4 | h6 | h8 | h12 | d1 | d3 | w1
  deriving DecidableEq, Repr

namespace Interval

def stepMs : Interval → Int64
  | s1 => 1000
  | m1 => 60 * 1000
  | m3 => 3 * 60 * 1000
  | m5 => 5 * 60 * 1000
  | m15 => 15 * 60 * 1000
  | m30 => 30 * 60 * 1000
  | h1 => 60 * 60 * 1000
  | h2 => 2 * 60 * 60 * 1000
  | h4 => 4 * 60 * 60 * 1000
  | h6 => 6 * 60 * 60 * 1000
  | h8 => 8 * 60 * 60 * 1000
  | h12 => 12 * 60 * 60 * 1000
  | d1 => 24 * 60 * 60 * 1000
  | d3 => 3 * 24 * 60 * 60 * 1000
  | w1 => 7 * 24 * 60 * 60 * 1000

def asStr : Interval → String
  | s1 => "1s"
  | m1 => "1m"
  | m3 => "3m"
  | m5 => "5m"
  | m15 => "15m"
  | m30 => "30m"
  | h1 => "1h"
  | h2 => "2h"
  | h4 => "4h"
  | h6 => "6h"
  | h8 => "8h"
  | h12 => "12h"
  | d1 => "1d"
  | d3 => "3d"
  | w1 => "1w"

/-- Reads a venue's name for an interval. -/
def fromStr (text : String) : Except ModelError Interval :=
  match String.ofList (Text.trim Text.isWhitespace text.toList) with
  | "1s" => .ok s1
  | "1m" => .ok m1
  | "3m" => .ok m3
  | "5m" => .ok m5
  | "15m" => .ok m15
  | "30m" => .ok m30
  | "1h" => .ok h1
  | "2h" => .ok h2
  | "4h" => .ok h4
  | "6h" => .ok h6
  | "8h" => .ok h8
  | "12h" => .ok h12
  | "1d" => .ok d1
  | "3d" => .ok d3
  | "1w" => .ok w1
  | other => .error (.invalidInterval other)

theorem stepMs_range (i : Interval) :
    1000 ≤ i.stepMs.toInt ∧ i.stepMs.toInt ≤ 604800000 := by
  cases i <;> decide

end Interval

end QuantForge
