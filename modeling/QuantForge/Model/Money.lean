import QuantForge.Model.Units

namespace QuantForge

/-- `rust_decimal`'s checked addition and subtraction, which answer `none`
on overflow. -/
class DecimalArith where
  checkedAdd : Decimal → Decimal → Option Decimal
  checkedSub : Decimal → Decimal → Option Decimal

/-- An amount in one asset, without a negative zero. -/
structure Money where
  amount : Decimal
  asset : Asset
  canonical : amount.canonical = amount

namespace Money

theorem eq_iff {m other : Money} : m = other ↔ m.amount = other.amount ∧ m.asset = other.asset := by
  cases m
  cases other
  simp

instance : DecidableEq Money := fun m other =>
  decidable_of_iff (m.amount = other.amount ∧ m.asset = other.asset) eq_iff.symm

def new (amount : Decimal) (asset : Asset) : Money where
  amount := amount.canonical
  asset := asset
  canonical := by
    unfold Decimal.canonical
    split_ifs <;> simp_all [Decimal.isZero]

@[simp] theorem new_value (amount : Decimal) (asset : Asset) :
    (new amount asset).amount.value = amount.value := Decimal.canonical_value amount

def toText (m : Money) : String := m.amount.toText ++ " " ++ m.asset.code

def inAsset (m : Money) (asset : Asset) : Except ModelError Money :=
  if m.asset ≠ asset then .error (.assetMismatch asset.code m.asset.code) else .ok m

private def combine (op : Decimal → Decimal → Option Decimal) (m other : Money) :
    Except ModelError Money :=
  if m.asset ≠ other.asset then
    .error (.assetMismatch m.asset.code other.asset.code)
  else
    match op m.amount other.amount with
    | none =>
      .error (.invalidAmount "amount" (m.amount.toText ++ " and " ++ other.amount.toText)
        "within range")
    | some amount => .ok (new amount m.asset)

/-- What two amounts in one asset come to, given the answer for their decimals. -/
def answered (m other : Money) (answer : Option Decimal) : Except ModelError Money :=
  match answer with
  | none =>
    .error (.invalidAmount "amount" (m.amount.toText ++ " and " ++ other.amount.toText)
      "within range")
  | some amount => .ok (new amount m.asset)

variable [DecimalArith]

def checkedAdd (m other : Money) : Except ModelError Money :=
  combine DecimalArith.checkedAdd m other

def checkedSub (m other : Money) : Except ModelError Money :=
  combine DecimalArith.checkedSub m other

theorem checkedAdd_eq {m other : Money} (h : m.asset = other.asset) :
    m.checkedAdd other = answered m other (DecimalArith.checkedAdd m.amount other.amount) :=
  if_neg (not_not.mpr h)

theorem checkedSub_eq {m other : Money} (h : m.asset = other.asset) :
    m.checkedSub other = answered m other (DecimalArith.checkedSub m.amount other.amount) :=
  if_neg (not_not.mpr h)

end Money

namespace DecimalArith

/-- Addition on aligned scales, refusing a sum whose digits do not fit. -/
def alignedAdd (a b : Decimal) : Option Decimal :=
  let scale := max a.scale b.scale
  let sum := a.signed * 10 ^ (scale - a.scale) + b.signed * 10 ^ (scale - b.scale)
  if h : sum.natAbs < 2 ^ 96 then
    some ⟨sum < 0, sum.natAbs, scale, h, max_le a.scale_le b.scale_le⟩
  else none

/-- The arithmetic of amounts whose sums need no rounding. -/
@[reducible] def aligned : DecimalArith where
  checkedAdd := alignedAdd
  checkedSub a b := alignedAdd a b.negate

end DecimalArith

end QuantForge
