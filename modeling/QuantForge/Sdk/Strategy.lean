import QuantForge.Model.Candle
import QuantForge.Model.Run

namespace QuantForge

structure StrategyError where
  message : String
  deriving DecidableEq

/-- What an engine tells a strategy with every callback. -/
structure StrategyContext where
  market : MarketId
  nowMs : Int64
  cash : Decimal
  positionQty : Decimal
  deriving DecidableEq

/-- A trading strategy over states `σ`, driven bar by bar. -/
structure Strategy (σ : Type) where
  onStart : StrategyContext → σ → Except StrategyError σ
  onBar : StrategyContext → Candle → σ → Except StrategyError (Option TargetPosition × σ)
  onFinish : StrategyContext → σ → Except StrategyError σ

end QuantForge
