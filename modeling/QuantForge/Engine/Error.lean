import QuantForge.Ports
import QuantForge.Sdk.Strategy

namespace QuantForge

/-- The engines' refusals; an overflow names the step. -/
inductive EngineError
  | noCandles
  | invalidConfig (message : String)
  | invalidState (message : String)
  | overflow (what : String)
  | strategy (source : StrategyError)
  | exchange (source : ExchangeError)
  | storage (source : StorageError)
  deriving DecidableEq

end QuantForge
