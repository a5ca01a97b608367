import QuantForge.Model.Market
import QuantForge.Model.Money

namespace QuantForge

inductive MarginMode
  | isolated
  | cross
  deriving DecidableEq

/-- What a position holds: its side, its size and its average entry price. -/
structure Exposure where
  side : PositionSide
  size : Quantity
  entryPrice : Price
  deriving DecidableEq

inductive LiquidationGap
  | reportedZero
  | reportedEmpty
  deriving DecidableEq

/-- The venue's own liquidation price, or why it gave none. -/
inductive Liquidation
  | price (price : Price)
  | unavailable (gap : LiquidationGap)
  deriving DecidableEq

/-- A position as a REST snapshot reports it: complete, so one with no
exposure is the venue's evidence that the position is flat. -/
structure PositionSnapshot where
  instrument : InstrumentId
  exposure : Option Exposure
  notional : Option Money
  leverage : Leverage
  marginMode : MarginMode
  markPrice : Option Price
  liquidation : Liquidation
  unrealizedPnl : Option Money
  margin : Option Money
  observedAtMs : TimestampMs
  deriving DecidableEq

namespace PositionSnapshot

def isFlat (p : PositionSnapshot) : Bool :=
  match p.exposure with
  | none => true
  | some exposure => exposure.size.isZero

/-- The side held, or `none` when flat. -/
def side (p : PositionSnapshot) : Option PositionSide :=
  (p.exposure.filter fun exposure => !exposure.size.isZero).map Exposure.side

end PositionSnapshot

end QuantForge
