import QuantForge.Model.Candle
import QuantForge.Model.Run
import QuantForge.Storage.Common
import QuantForge.Framework.Prog

namespace QuantForge

/-- What kind of failure an exchange error is. -/
inductive ExchangeErrorKind
  | transport
  | invalidResponse
  | invalidRequest
  | missingCredentials
  | unauthorized
  | clockSkew
  | rateLimited
  | unavailable
  | outcomeUnknown
  | unknownSymbol
  | unknownOrder
  | insufficientBalance
  | ruleViolation
  | rejected
  | other
  deriving DecidableEq

inductive ExchangeError
  | transport (message : String)
  | api (kind : ExchangeErrorKind) (code : Option Int64) (message : String)
  | missingCredentials
  | invalidResponse (message : String)
  | invalidRequest (message : String)
  deriving DecidableEq

structure KlineRequest where
  symbol : Symbol
  interval : Interval
  startTimeMs : Option Int64
  endTimeMs : Option Int64
  limit : Option UInt16
  deriving DecidableEq

/-- A store of one market's candles. A write leaves a next store also where it
is refused. -/
class CandleStore (S : Type) where
  upsertCandles : MarketId → List Candle → Prog S StorageError Nat
  loadCandles : MarketId → CandleQuery → S → Except StorageError (List Candle)
  loadRecentCandles : MarketId → Nat → S → Except StorageError (List Candle)
  maxOpenTimeMs : MarketId → S → Except StorageError (Option Int64)

end QuantForge
