import QuantForge.Model.Units
import QuantForge.Model.Interval

namespace QuantForge

inductive Venue
  | binance
  | bybit
  deriving DecidableEq

/-- A product family. -/
inductive Category
  | spot
  | linear
  | inverse
  deriving DecidableEq

def Category.isFutures : Category → Bool
  | .spot => false
  | _ => true

/-- A product line: one venue's market in one family. -/
inductive ExchangeId
  | binanceSpot
  | binanceLinear
  | binanceInverse
  | bybitSpot
  | bybitLinear
  | bybitInverse
  deriving DecidableEq

namespace ExchangeId

def venue : ExchangeId → Venue
  | .binanceSpot | .binanceLinear | .binanceInverse => .binance
  | .bybitSpot | .bybitLinear | .bybitInverse => .bybit

def category : ExchangeId → Category
  | .binanceSpot | .bybitSpot => .spot
  | .binanceLinear | .bybitLinear => .linear
  | .binanceInverse | .bybitInverse => .inverse

/-- The name the line's candles, runs and segments are stored under. -/
def asStr : ExchangeId → String
  | .binanceSpot => "binance_spot"
  | .binanceLinear => "binance_linear"
  | .binanceInverse => "binance_inverse"
  | .bybitSpot => "bybit_spot"
  | .bybitLinear => "bybit_linear"
  | .bybitInverse => "bybit_inverse"

end ExchangeId

/-- What is traded, and the asset the venue books its profit in. -/
structure InstrumentId where
  exchange : ExchangeId
  symbol : Symbol
  settle : Asset
  deriving DecidableEq

/-- A candle series: a symbol of a product line on one interval. -/
structure MarketId where
  exchange : ExchangeId
  symbol : Symbol
  interval : Interval
  deriving DecidableEq

inductive Environment
  | mainnet
  | testnet
  | demo
  deriving DecidableEq

def Environment.asStr : Environment → String
  | .mainnet => "mainnet"
  | .testnet => "testnet"
  | .demo => "demo"

def Environment.isProduction : Environment → Bool
  | .mainnet => true
  | _ => false

abbrev IssuedAccountId := TextId (Text.plainText 64)

abbrev KeyFingerprint := TextId fun text =>
  text.toList.length == 16 &&
    text.toList.all fun c => Text.isAsciiDigit c || ('a' ≤ c && c ≤ 'f')

inductive VenueAccountId
  | venue (id : IssuedAccountId)
  | keyFingerprint (fingerprint : KeyFingerprint)
  deriving DecidableEq

def VenueAccountId.isVenueIssued : VenueAccountId → Bool
  | .venue _ => true
  | .keyFingerprint _ => false

/-- One account on one venue in one environment, which on mainnet the venue
itself has identified. -/
structure AccountRef where
  venue : Venue
  environment : Environment
  venueAccountId : VenueAccountId
  issued : (!environment.isProduction || venueAccountId.isVenueIssued) = true
  deriving DecidableEq

/-- One position in one-way mode: an account's exposure to one futures
instrument of its own venue. -/
structure PositionKey where
  account : AccountRef
  instrument : InstrumentId
  futures : instrument.exchange.category.isFutures = true
  sameVenue : instrument.exchange.venue = account.venue
  deriving DecidableEq

/-- A linear SOL position on a Bybit demo account. -/
def PositionKey.solUsdt : PositionKey where
  account := ⟨.bybit, .demo, .venue ⟨"1", by decide⟩, by decide⟩
  instrument := ⟨.bybitLinear, ⟨"SOLUSDT", by decide⟩, .usdt⟩
  futures := by decide
  sameVenue := by decide

abbrev VenueOrderId := TextId (Text.plainText 128)

abbrev VenueAlgoId := TextId (Text.plainText 128)

abbrev VenueTradeId := TextId (Text.plainText 128)

abbrev ProfileId := TextId fun text =>
  match text.toList with
  | [] => false
  | first :: rest =>
    (Text.isAsciiLowercase first || Text.isAsciiDigit first) && rest.length + 1 ≤ 32 &&
      rest.all fun c => Text.isAsciiLowercase c || Text.isAsciiDigit c || c == '-' || c == '_'

def ProfileId.main : ProfileId := ⟨"main", by decide⟩

abbrev OwnerTag := TextId fun text =>
  text.toList.length == 6 &&
    text.toList.all fun c => Text.isAsciiLowercase c || Text.isAsciiDigit c

abbrev SignalId := TextId fun text =>
  !text.isEmpty && text.toList.length ≤ 128 && !text.toList.any Text.isControl

/-- A number a store issues, never zero. -/
structure StoreNumber where
  get : UInt64
  positive : get ≠ 0
  deriving DecidableEq

abbrev OperationId := StoreNumber

abbrev PositionCycleId := StoreNumber

end QuantForge
