import QuantForge.Model.Market

namespace QuantForge

structure AssetBalance where
  asset : String
  free : Decimal
  locked : Decimal
  deriving DecidableEq

/-- The trading rules an exchange reports for a symbol. -/
structure SymbolRules where
  symbol : Symbol
  baseAsset : String
  quoteAsset : String
  minQty : Option Decimal
  maxQty : Option Decimal
  stepSize : Option Decimal
  marketMinQty : Option Decimal
  marketMaxQty : Option Decimal
  marketStepSize : Option Decimal
  minNotional : Option Decimal
  tickSize : Option Decimal
  deriving DecidableEq

namespace SymbolRules

def effectiveMarketStepSize (rules : SymbolRules) : Option Decimal :=
  rules.marketStepSize.or rules.stepSize

def effectiveMarketMinQty (rules : SymbolRules) : Option Decimal :=
  rules.marketMinQty.or rules.minQty

def effectiveMarketMaxQty (rules : SymbolRules) : Option Decimal :=
  rules.marketMaxQty.or rules.maxQty

end SymbolRules

end QuantForge
