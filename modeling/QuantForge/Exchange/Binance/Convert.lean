import QuantForge.Model.DecimalMath
import QuantForge.Model.JsonValue
import QuantForge.Model.Rules
import QuantForge.Model.Symbol
import QuantForge.Ports

namespace QuantForge

/-- `rust_decimal`'s `FromStr`, and what it says of text that it refuses. -/
class DecimalFromStr where
  parse : String → Except String Decimal

namespace Binance

structure SymbolInfo where
  symbol : String
  baseAsset : String
  quoteAsset : String
  filters : List JsonValue

variable [DecimalFromStr]

def parseDecimal (raw field : String) : Except ExchangeError Decimal :=
  (DecimalFromStr.parse raw).mapError fun err =>
    .invalidResponse s!"failed to parse decimal field `{field}`: {err}"

/-- A filter's limit. One that is not positive is an absent rule. -/
def parseOptionalFilterDecimal (filter : JsonValue) (field : String) :
    Except ExchangeError (Option Decimal) :=
  match (filter.get field).bind JsonValue.asStr with
  | some raw => do
    let value ← parseDecimal raw field
    return (some value).filter (Decimal.zero.lt ·)
  | none => .ok none

def filterType (filter : JsonValue) : Option String :=
  (filter.get "filterType").bind JsonValue.asStr

/-- The rules once one more filter is read. A filter without a type is ignored. -/
def readFilter (rules : SymbolRules) (filter : JsonValue) : Except ExchangeError SymbolRules :=
  match filterType filter with
  | some "LOT_SIZE" => do
    let minQty ← parseOptionalFilterDecimal filter "minQty"
    let maxQty ← parseOptionalFilterDecimal filter "maxQty"
    let stepSize ← parseOptionalFilterDecimal filter "stepSize"
    return { rules with minQty, maxQty, stepSize }
  | some "MARKET_LOT_SIZE" => do
    let marketMinQty ← parseOptionalFilterDecimal filter "minQty"
    let marketMaxQty ← parseOptionalFilterDecimal filter "maxQty"
    let marketStepSize ← parseOptionalFilterDecimal filter "stepSize"
    return { rules with marketMinQty, marketMaxQty, marketStepSize }
  | some "MIN_NOTIONAL" => do
    let minNotional ← parseOptionalFilterDecimal filter "minNotional"
    return { rules with minNotional }
  | some "NOTIONAL" =>
    if rules.minNotional.isNone then do
      let minNotional ← parseOptionalFilterDecimal filter "minNotional"
      return { rules with minNotional }
    else .ok rules
  | some "PRICE_FILTER" => do
    let tickSize ← parseOptionalFilterDecimal filter "tickSize"
    return { rules with tickSize }
  | _ => .ok rules

/-- The rules of a symbol before any filter is read. -/
def noRules (symbol : Symbol) (info : SymbolInfo) : SymbolRules where
  symbol := symbol
  baseAsset := info.baseAsset
  quoteAsset := info.quoteAsset
  minQty := none
  maxQty := none
  stepSize := none
  marketMinQty := none
  marketMaxQty := none
  marketStepSize := none
  minNotional := none
  tickSize := none

def parseSymbolRules (info : SymbolInfo) : Except ExchangeError SymbolRules := do
  let symbol ← (Symbol.new info.symbol).mapError fun _ => .invalidResponse "invalid symbol: empty"
  info.filters.foldlM readFilter (noRules symbol info)

end Binance

end QuantForge
