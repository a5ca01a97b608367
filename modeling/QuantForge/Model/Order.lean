import QuantForge.Model.DecimalMath
import QuantForge.Model.Market

namespace QuantForge

inductive OrderStatus
  | new
  | partiallyFilled
  | filled
  | canceled
  | rejected
  | expired
  | pendingNew
  | unknown
  deriving DecidableEq

structure Fill where
  price : Decimal
  qty : Decimal
  commission : Decimal
  commissionAsset : Option String
  tradeId : Option VenueTradeId
  deriving DecidableEq

/-- An order as the exchange reports it, where `none` is what it did not
report. -/
structure ExchangeOrder where
  symbol : Symbol
  side : Side
  orderType : String
  status : OrderStatus
  orderId : Option VenueOrderId
  clientOrderId : Option String
  requestedQty : Option Decimal
  requestedQuoteQty : Option Decimal
  executedQty : Option Decimal
  cumulativeQuoteQty : Option Decimal
  avgPrice : Option Decimal
  transactTimeMs : Option Int64
  fills : Option (List Fill)
  deriving DecidableEq

namespace Fill

/-- Whether the fill's fee was charged in the base asset. -/
def chargesBase (baseAsset : String) (fill : Fill) : Bool :=
  fill.commissionAsset.any (Text.eqIgnoreAsciiCase · baseAsset)

end Fill

namespace ExchangeOrder

variable [DecimalMath]

def averagePrice (order : ExchangeOrder) : Except Panic (Option Decimal) :=
  match order.avgPrice, order.executedQty, order.cumulativeQuoteQty with
  | some price, _, _ => .ok (some price)
  | none, some executed, some cumulative =>
    if Decimal.lt .zero executed then (DecimalMath.div cumulative executed).map some else .ok none
  | none, _, _ => .ok none

/-- The quantity after one fill's fee. -/
def afterFee (baseAsset : String) (qty : Decimal) (fill : Fill) : Except Panic Decimal :=
  if fill.chargesBase baseAsset then DecimalMath.sub qty fill.commission else .ok qty

/-- The executed quantity less the fees charged in the base asset, where the
exchange reported both. -/
def netBaseQtyAfterBaseFees (baseAsset : String) (order : ExchangeOrder) :
    Except Panic (Option Decimal) :=
  match order.executedQty, order.fills with
  | some executed, some fills => do
    let qty ← fills.foldlM (afterFee baseAsset) executed
    .ok (some (qty.max .zero))
  | _, _ => .ok none

end ExchangeOrder

structure MarketOrderRequest where
  symbol : Symbol
  side : Side
  quantity : Option Decimal
  quoteOrderQty : Option Decimal
  newClientOrderId : Option String
  deriving DecidableEq

end QuantForge
