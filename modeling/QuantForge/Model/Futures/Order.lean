import QuantForge.Model.Futures.ClientOrderId
import QuantForge.Model.Money

namespace QuantForge

/-- Refuses a client ID whose leg is not one of `legs`. -/
def expectLeg (id : ClientOrderId) (legs : List OrderLeg) : Except ModelError Unit :=
  if id.leg ∉ legs then
    .error (.invalidIdentifier "client order id" id.toText "its leg does not match the order")
  else .ok ()

/-- One attempt of an operation: the ID it was sent with and when. -/
structure OrderAttempt where
  clientOrderId : ClientOrderId
  sentAtMs : TimestampMs
  deriving DecidableEq

inductive OrderOrigin
  | client
  | liquidation
  | adl
  deriving DecidableEq

/-- Who cancelled an order, where the venue says. -/
inductive CancelAttribution
  | byUser
  | bySystem
  | unattributed
  deriving DecidableEq

inductive FuturesOrderStatus
  | new
  | partiallyFilled
  | filled
  | canceled (attribution : CancelAttribution)
  | rejected
  | expired
  deriving DecidableEq

/-- Whether the order can no longer fill. -/
def FuturesOrderStatus.isFinal : FuturesOrderStatus → Bool
  | .new | .partiallyFilled => false
  | _ => true

inductive RecordSource
  | query
  | stream
  deriving DecidableEq

/-- An order as the venue reports it. Its client ID stays raw text. -/
structure FuturesOrder where
  instrument : InstrumentId
  venueOrderId : VenueOrderId
  clientId : Option String
  side : Side
  reduceOnly : Bool
  origin : OrderOrigin
  status : FuturesOrderStatus
  requested : Quantity
  filled : Quantity
  averagePrice : Option Price
  source : RecordSource
  updatedAtMs : TimestampMs

/-- The client ID read as QuantForge's, or `none` for anyone else's. -/
def FuturesOrder.clientOrderId (order : FuturesOrder) : Option ClientOrderId :=
  order.clientId.bind ClientOrderId.parseOurs

structure OrderLookupGuarantee where
  visibilityVerified : Bool
  unfilledRetentionMs : Int64

/-- One fill, as the venue's trade records or private stream report it. -/
structure FuturesFill where
  tradeId : VenueTradeId
  venueOrderId : VenueOrderId
  clientId : Option String
  instrument : InstrumentId
  origin : OrderOrigin
  side : Side
  price : Price
  quantity : Quantity
  fee : Money
  realizedPnl : Option Money
  timeMs : TimestampMs
  source : RecordSource

def FuturesFill.clientOrderId (fill : FuturesFill) : Option ClientOrderId :=
  fill.clientId.bind ClientOrderId.parseOurs

/-- A venue's definitive refusal of one order, naming the attempt it refused. -/
structure Rejection where
  clientOrderId : ClientOrderId
  kind : String
  message : String

theorem expectLeg_ok {id : ClientOrderId} {legs : List OrderLeg} :
    expectLeg id legs = .ok () ↔ id.leg ∈ legs := by
  unfold expectLeg
  split_ifs with h <;> simp_all

end QuantForge
