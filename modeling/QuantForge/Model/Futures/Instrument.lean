import QuantForge.Model.Market

namespace QuantForge

def Category.asStr : Category → String
  | .spot => "spot"
  | .linear => "linear"
  | .inverse => "inverse"

namespace InstrumentId

def category (id : InstrumentId) : Category := id.exchange.category

def toText (id : InstrumentId) : String := id.exchange.asStr ++ " " ++ id.symbol.name

end InstrumentId

namespace Quantity

/-- The unit `category` trades in. -/
def unitOf : Category → String
  | .spot | .linear => "base quantity"
  | .inverse => "contracts"

def toText : Quantity → String
  | .base qty => qty.value.toText
  | .contracts count => count.value.toText ++ " contracts"

/-- Refuses a quantity whose unit is not the one `category` trades in. -/
def inUnitOf (quantity : Quantity) (category : Category) : Except ModelError Quantity :=
  if quantity.unit ≠ unitOf category then
    .error (.unitMismatch (category.asStr ++ " quantities") (unitOf category) quantity.unit)
  else .ok quantity

/-- Refuses a zero quantity, naming it `what`. -/
def positive (what : String) (quantity : Quantity) : Except ModelError Quantity :=
  if quantity.isZero then .error (.invalidAmount what quantity.toText "positive") else .ok quantity

theorem inUnitOf_ok {quantity other : Quantity} {category : Category} :
    quantity.inUnitOf category = .ok other ↔ quantity.unit = unitOf category ∧ other = quantity := by
  unfold inUnitOf
  by_cases h : quantity.unit = unitOf category
  · rw [if_neg (not_not.mpr h)]
    constructor
    · intro hok
      exact ⟨h, (Except.ok.inj hok).symm⟩
    · intro hok
      rw [hok.2]
  · rw [if_pos h]
    constructor
    · intro hok
      cases hok
    · intro hok
      exact absurd hok.1 h

theorem positive_ok {what : String} {quantity other : Quantity} :
    positive what quantity = .ok other ↔ quantity.isZero = false ∧ other = quantity := by
  unfold positive
  by_cases h : quantity.isZero = true
  · rw [if_pos h]
    constructor
    · intro hok
      cases hok
    · intro hok
      rw [h] at hok
      cases hok.1
  · rw [if_neg h]
    constructor
    · intro hok
      exact ⟨by simpa using h, (Except.ok.inj hok).symm⟩
    · intro hok
      rw [hok.2]

end Quantity

/-- What kind of contract an instrument is. -/
inductive ContractKind
  | perpetual
  | tradFiPerpetual
  | dated (deliveryMs : TimestampMs)
  deriving DecidableEq

/-- Whether the venue trades the instrument, or its own word for the status. -/
inductive TradingStatus
  | trading
  | other (status : String)
  deriving DecidableEq

/-- A futures instrument whose metadata is consistent. -/
structure FuturesInstrument where
  id : InstrumentId
  contract : ContractKind
  status : TradingStatus
  futures : id.exchange.category.isFutures = true

/-- Why universe rule 1 leaves an instrument out. -/
inductive UniverseRefusal
  | tradFi
  | dated (deliveryMs : TimestampMs)
  | notTrading (status : String)
  | notUsdtSettled (settle : Asset)
  deriving DecidableEq

def UniverseRefusal.toText : UniverseRefusal → String
  | .tradFi => "TradFi perpetuals are outside the v0.3 universe"
  | .dated _ => "dated futures are outside the v0.3 universe"
  | .notTrading status => "the venue lists it as " ++ status ++ ", not trading"
  | .notUsdtSettled settle =>
    "linear contracts settled in " ++ settle.code ++ " are refused; only USDT is"

namespace FuturesInstrument

def linearSettle : String := "USDT"

/-- Universe rule 1: a crypto perpetual in trading status whose linear form settles in USDT. -/
def universeRule (instrument : FuturesInstrument) : Except UniverseRefusal Unit :=
  match instrument.contract with
  | .tradFiPerpetual => .error .tradFi
  | .dated deliveryMs => .error (.dated deliveryMs)
  | .perpetual =>
    match instrument.status with
    | .other status => .error (.notTrading status)
    | .trading =>
      if instrument.id.category = .linear ∧ instrument.id.settle.code ≠ linearSettle then
        .error (.notUsdtSettled instrument.id.settle)
      else .ok ()

end FuturesInstrument

end QuantForge
