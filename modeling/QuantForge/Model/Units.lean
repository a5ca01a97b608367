import QuantForge.Model.Decimal

namespace QuantForge

/-- A decimal with a unit, which holds only values its rule accepts and no
negative zero. -/
structure DecimalUnit (accepts : Decimal → Bool) where
  value : Decimal
  accepted : accepts value = true
  canonical : value.canonical = value
  deriving DecidableEq

namespace DecimalUnit

variable {accepts : Decimal → Bool}

/-- Equality of the numbers, whatever their scales. -/
def eqv (a b : DecimalUnit accepts) : Bool := a.value.eqv b.value

@[simp] theorem eqv_refl (a : DecimalUnit accepts) : a.eqv a = true := Decimal.eqv_refl _

theorem eqv_comm (a b : DecimalUnit accepts) : a.eqv b = b.eqv a := Decimal.eqv_comm _ _

theorem eqv_trans {a b c : DecimalUnit accepts} (hab : a.eqv b = true) (hbc : b.eqv c = true) :
    a.eqv c = true := Decimal.eqv_trans hab hbc

end DecimalUnit

abbrev Price := DecimalUnit fun value => Decimal.zero.lt value

abbrev BaseQty := DecimalUnit fun value => Decimal.zero.le value

/-- A contract count is a whole number. -/
abbrev Contracts := DecimalUnit fun value => Decimal.zero.le value && value.isWhole

abbrev Leverage := DecimalUnit fun value => (Decimal.ofNat 1).le value

/-- A quantity in the unit its product family trades in. -/
inductive Quantity
  | base (qty : BaseQty)
  | contracts (count : Contracts)
  deriving DecidableEq

namespace Quantity

def unit : Quantity → String
  | .base _ => "base quantity"
  | .contracts _ => "contracts"

def value : Quantity → Decimal
  | .base qty => qty.value
  | .contracts count => count.value

def isZero (q : Quantity) : Bool := q.value.isZero

end Quantity

inductive Side
  | buy
  | sell
  deriving DecidableEq

inductive PositionSide
  | long
  | short
  deriving DecidableEq

namespace PositionSide

def asStr : PositionSide → String
  | .long => "long"
  | .short => "short"

def opposite : PositionSide → PositionSide
  | .long => .short
  | .short => .long

end PositionSide

abbrev TimestampMs := Int64

/-- Subtraction that stops at the ends of the 64-bit range. -/
def TimestampMs.saturatingSub (a b : TimestampMs) : TimestampMs :=
  Int64.ofInt (max (-2 ^ 63) (min (2 ^ 63 - 1) (a.toInt - b.toInt)))

end QuantForge
