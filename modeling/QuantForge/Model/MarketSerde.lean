import QuantForge.Model.Futures.ClientOrderIdText
import QuantForge.Model.ParseDecimal
import QuantForge.Model.Serde
import QuantForge.Model.Symbol

namespace QuantForge

open Serde

theorem DecimalUnit.canonical_canonical (d : Decimal) : d.canonical.canonical = d.canonical := by
  unfold Decimal.canonical
  split_ifs <;> simp_all [Decimal.isZero]

namespace DecimalUnit

variable {accepts : Decimal → Bool}

/-- A value that its rule accepts. A negative zero becomes zero. -/
def new (what rule : String) (number : ∀ d, accepts d.canonical = accepts d) (value : Decimal) :
    Except ModelError (DecimalUnit accepts) :=
  if h : accepts value then .ok ⟨value.canonical, (number value).trans h, canonical_canonical value⟩
  else .error (.invalidAmount what value.toText rule)

theorem new_value {what rule : String} {number : ∀ d, accepts d.canonical = accepts d}
    (unit : DecimalUnit accepts) : new what rule number unit.value = .ok unit := by
  unfold new
  rw [dif_pos unit.accepted]
  simp only [unit.canonical]

theorem new_ok {what rule : String} {number : ∀ d, accepts d.canonical = accepts d}
    {value : Decimal} {unit : DecimalUnit accepts} (h : new what rule number value = .ok unit) :
    unit.value = value.canonical := by
  unfold new at h
  split_ifs at h
  rw [← Except.ok.inj h]

end DecimalUnit

namespace Decimal

theorem zero_lt_canonical (d : Decimal) : zero.lt d.canonical = zero.lt d := by
  rw [Bool.eq_iff_iff, lt, lt, Bool.not_eq_true', Bool.not_eq_true', ← Bool.not_eq_true,
    ← Bool.not_eq_true, le_iff, le_iff, canonical_value]

theorem le_canonical (a d : Decimal) : a.le d.canonical = a.le d := by
  rw [Bool.eq_iff_iff, le_iff, le_iff, canonical_value]

theorem isWhole_canonical (d : Decimal) : d.canonical.isWhole = d.isWhole := by
  unfold canonical
  split_ifs <;> rfl

end Decimal

namespace Price

def new (value : Decimal) : Except ModelError Price :=
  DecimalUnit.new "price" "positive" Decimal.zero_lt_canonical value

def tryFrom [DecimalParser] (text : String) : Except ModelError Price := do
  new (← Decimal.parseDecimal text)

end Price

namespace BaseQty

def new (value : Decimal) : Except ModelError BaseQty :=
  DecimalUnit.new "base quantity" "zero or positive" (Decimal.le_canonical Decimal.zero) value

def tryFrom [DecimalParser] (text : String) : Except ModelError BaseQty := do
  new (← Decimal.parseDecimal text)

end BaseQty

namespace Contracts

theorem rule_canonical (d : Decimal) :
    (Decimal.zero.le d.canonical && d.canonical.isWhole) = (Decimal.zero.le d && d.isWhole) := by
  rw [Decimal.le_canonical, Decimal.isWhole_canonical]

def new (value : Decimal) : Except ModelError Contracts :=
  DecimalUnit.new "contract count" "a whole number, zero or positive" rule_canonical value

def tryFrom [DecimalParser] (text : String) : Except ModelError Contracts := do
  new (← Decimal.parseDecimal text)

end Contracts

namespace ExchangeId

def all : List ExchangeId :=
  [.binanceSpot, .binanceLinear, .binanceInverse, .bybitSpot, .bybitLinear, .bybitInverse]

/-- The name a line has in JSON. -/
def token : ExchangeId → String
  | .binanceSpot => "BinanceSpot"
  | .binanceLinear => "BinanceLinear"
  | .binanceInverse => "BinanceInverse"
  | .bybitSpot => "BybitSpot"
  | .bybitLinear => "BybitLinear"
  | .bybitInverse => "BybitInverse"

end ExchangeId

namespace PositionSide

def all : List PositionSide := [.long, .short]

def token : PositionSide → String
  | .long => "Long"
  | .short => "Short"

end PositionSide

namespace Serde

instance : Serde Symbol := checkedText Symbol.name Symbol.new

instance : Serde Asset := checkedText Asset.code Asset.new

instance : Serde ClientOrderId := checkedText ClientOrderId.toText ClientOrderId.fromStr

instance : Serde ExchangeId := unitEnum ExchangeId.token ExchangeId.all

instance : Serde PositionSide := unitEnum PositionSide.token PositionSide.all

def instrumentMembers : List String := ["exchange", "symbol", "settle"]

def instrumentGiven (id : InstrumentId) : List (String × JsonValue) :=
  [("exchange", serialize id.exchange), ("symbol", serialize id.symbol),
    ("settle", serialize id.settle)]

def instrumentOfJson (json : JsonValue) : Option InstrumentId := do
  let given ← members instrumentMembers json
  let exchange ← readMember given "exchange"
  let symbol ← readMember given "symbol"
  let settle ← readMember given "settle"
  return { exchange, symbol, settle }

instance : Serde InstrumentId := ⟨fun id => .object (instrumentGiven id), instrumentOfJson, none⟩

section

variable [DecimalParser]

instance : Serde Price := checkedText (·.value.toText) Price.tryFrom

instance : Serde BaseQty := checkedText (·.value.toText) BaseQty.tryFrom

instance : Serde Contracts := checkedText (·.value.toText) Contracts.tryFrom

def quantityToJson : Quantity → JsonValue
  | .base qty => .object [("Base", serialize qty)]
  | .contracts count => .object [("Contracts", serialize count)]

def quantityOfJson (json : JsonValue) : Option Quantity :=
  match variant json with
  | some ("Base", some payload) => (deserialize payload).map .base
  | some ("Contracts", some payload) => (deserialize payload).map .contracts
  | _ => none

instance : Serde Quantity := ⟨quantityToJson, quantityOfJson, none⟩

end

theorem symbol_reads_back : ReadsBack Symbol := by
  intro s
  show (Symbol.new s.name).toOption = some s
  rw [Symbol.new_name]
  rfl

theorem asset_reads_back : ReadsBack Asset := by
  intro a
  show (Asset.new a.code).toOption = some a
  rw [Asset.new_code]
  rfl

theorem clientOrderId_reads_back : ReadsBack ClientOrderId := by
  intro id
  show (ClientOrderId.fromStr id.toText).toOption = some id
  rw [ClientOrderId.fromStr_toText]
  rfl

theorem exchange_reads_back : ReadsBack ExchangeId := by
  intro exchange
  cases exchange <;> rfl

theorem side_reads_back : ReadsBack PositionSide := by
  intro side
  cases side <;> rfl

theorem instrument_reads_back : ReadsBack InstrumentId := by
  intro id
  have once : ((instrumentGiven id).map Prod.fst).Nodup := show instrumentMembers.Nodup by decide
  show instrumentOfJson (.object (instrumentGiven id)) = some id
  rw [instrumentOfJson, members_bind instrumentMembers rfl once, written_bind exchange_reads_back once (.head _),
    written_bind symbol_reads_back once (.tail _ (.head _)),
    written_bind asset_reads_back once (.tail _ (.tail _ (.head _)))]
  rfl

section

variable [DecimalParser] [RustDecimal] {accepts : Decimal → Bool}

/-- What a decimal unit writes is read as its value. -/
theorem parse_value (unit : DecimalUnit accepts) :
    Decimal.parseDecimal unit.value.toText = .ok unit.value :=
  Decimal.parseDecimal_ok.mpr (Decimal.writes_iff.mpr ⟨rfl, unit.canonical⟩)

theorem price_reads_back : ReadsBack Price := by
  intro price
  show (Price.tryFrom price.value.toText).toOption = some price
  rw [Price.tryFrom, parse_value]
  show (Price.new price.value).toOption = some price
  rw [Price.new, DecimalUnit.new_value]
  rfl

theorem baseQty_reads_back : ReadsBack BaseQty := by
  intro qty
  show (BaseQty.tryFrom qty.value.toText).toOption = some qty
  rw [BaseQty.tryFrom, parse_value]
  show (BaseQty.new qty.value).toOption = some qty
  rw [BaseQty.new, DecimalUnit.new_value]
  rfl

theorem contracts_reads_back : ReadsBack Contracts := by
  intro count
  show (Contracts.tryFrom count.value.toText).toOption = some count
  rw [Contracts.tryFrom, parse_value]
  show (Contracts.new count.value).toOption = some count
  rw [Contracts.new, DecimalUnit.new_value]
  rfl

theorem quantity_reads_back : ReadsBack Quantity := by
  intro quantity
  cases quantity with
  | base qty =>
    show quantityOfJson (quantityToJson (.base qty)) = some (.base qty)
    simp [quantityOfJson, quantityToJson, variant, baseQty_reads_back qty]
  | contracts count =>
    show quantityOfJson (quantityToJson (.contracts count)) = some (.contracts count)
    simp [quantityOfJson, quantityToJson, variant, contracts_reads_back count]

end

end Serde

end QuantForge
