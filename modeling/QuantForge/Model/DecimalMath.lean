import QuantForge.Model.Decimal
import Mathlib.Algebra.Order.Field.Basic

namespace QuantForge

/-- `rust_decimal`'s checked arithmetic, which answers nothing where the
result lies outside the decimal range. -/
class DecimalMath where
  checkedAdd : Decimal → Decimal → Option Decimal
  checkedSub : Decimal → Decimal → Option Decimal
  checkedMul : Decimal → Decimal → Option Decimal
  checkedDiv : Decimal → Decimal → Option Decimal

/-- Sums, differences and products are exact; a quotient may be rounded, but
not across zero. -/
class ExactMath [DecimalMath] : Prop where
  add_value {a b c : Decimal} : DecimalMath.checkedAdd a b = some c → c.value = a.value + b.value
  sub_value {a b c : Decimal} : DecimalMath.checkedSub a b = some c → c.value = a.value - b.value
  mul_value {a b c : Decimal} : DecimalMath.checkedMul a b = some c → c.value = a.value * b.value
  div_nonneg {a b c : Decimal} : DecimalMath.checkedDiv a b = some c →
    0 ≤ a.value → 0 < b.value → 0 ≤ c.value

/-- How an operator of `rust_decimal` ends where the checked one answers
nothing. -/
inductive Panic
  | arithmetic
  deriving DecidableEq

namespace DecimalMath

def orPanic (answer : Option Decimal) : Except Panic Decimal :=
  match answer with
  | some value => .ok value
  | none => .error .arithmetic

theorem orPanic_ok {answer : Option Decimal} {value : Decimal} :
    orPanic answer = .ok value ↔ answer = some value := by
  cases answer <;> simp [orPanic]

variable [DecimalMath]

def add (a b : Decimal) : Except Panic Decimal := orPanic (checkedAdd a b)

def sub (a b : Decimal) : Except Panic Decimal := orPanic (checkedSub a b)

def mul (a b : Decimal) : Except Panic Decimal := orPanic (checkedMul a b)

def div (a b : Decimal) : Except Panic Decimal := orPanic (checkedDiv a b)

end DecimalMath

namespace Decimal

/-- The whole part, which keeps the sign. -/
def trunc (d : Decimal) : Decimal where
  negative := d.negative
  mantissa := d.mantissa / 10 ^ d.scale
  scale := 0
  mantissa_lt := (Nat.div_le_self _ _).trans_lt d.mantissa_lt
  scale_le := zero.scale_le

protected def min (a b : Decimal) : Decimal := if b.lt a then b else a

protected def max (a b : Decimal) : Decimal := if b.lt a then a else b

/-- `value` rounded down to a multiple of `step`, or as it is where the step is
not positive. -/
def roundDownToStep [DecimalMath] (value step : Decimal) : Except Panic Decimal :=
  if step.le zero then .ok value
  else do
    let quotient ← DecimalMath.div value step
    DecimalMath.mul quotient.trunc step

@[simp] theorem zero_value : zero.value = 0 := by simp [value, signed, zero]

theorem lt_iff (a b : Decimal) : a.lt b = true ↔ a.value < b.value := by
  rw [lt, Bool.not_eq_true', ← Bool.not_eq_true, le_iff, not_le]

theorem zero_lt {d : Decimal} : Decimal.lt .zero d = true ↔ 0 < d.value := by
  rw [lt_iff, zero_value]

theorem not_le_zero {d : Decimal} : d.le .zero = false ↔ 0 < d.value := by
  rw [← Bool.not_eq_true, le_iff, zero_value, not_le]

/-- The decimal of fewest digits that is exactly `q`, if there is one. -/
def ofRat (q : ℚ) : Option Decimal :=
  (List.range 29).findSome? fun scale =>
    let mantissa := q.num * 10 ^ scale / q.den
    if h : mantissa.natAbs < 2 ^ 96 ∧ scale ≤ 28 ∧ mantissa * q.den = q.num * 10 ^ scale then
      some ⟨decide (mantissa < 0), mantissa.natAbs, scale, h.1, h.2.1⟩
    else none

theorem ofRat_value {q : ℚ} {d : Decimal} (h : ofRat q = some d) : d.value = q := by
  obtain ⟨scale, -, hscale⟩ := List.exists_of_findSome?_eq_some h
  simp only [Option.dite_none_right_eq_some, Option.some.injEq] at hscale
  obtain ⟨⟨-, -, exact_⟩, rfl⟩ := hscale
  set mantissa := q.num * 10 ^ scale / q.den with hm
  have sign : (if decide (mantissa < 0) = true then -(mantissa.natAbs : Int) else mantissa.natAbs) =
      mantissa := by
    simp only [decide_eq_true_eq]
    split_ifs <;> omega
  have hden : (q.den : ℚ) ≠ 0 := by exact_mod_cast q.den_nz
  have hpow : (10 : ℚ) ^ scale ≠ 0 := by positivity
  have whole : (mantissa : ℚ) * q.den = q.num * 10 ^ scale := by exact_mod_cast exact_
  rw [value, signed, sign, div_eq_iff hpow]
  rw [← mul_left_inj' hden, whole, mul_right_comm, Rat.mul_den_eq_num]

end Decimal

/-- Arithmetic that answers exactly or not at all. -/
@[reducible] def DecimalMath.exact_ : DecimalMath where
  checkedAdd a b := Decimal.ofRat (a.value + b.value)
  checkedSub a b := Decimal.ofRat (a.value - b.value)
  checkedMul a b := Decimal.ofRat (a.value * b.value)
  checkedDiv a b := if b.isZero then none else Decimal.ofRat (a.value / b.value)

theorem DecimalMath.exact_exactMath : @ExactMath DecimalMath.exact_ := by
  let _ := DecimalMath.exact_
  constructor
  · intro a b c h
    exact Decimal.ofRat_value h
  · intro a b c h
    exact Decimal.ofRat_value h
  · intro a b c h
    exact Decimal.ofRat_value h
  · intro a b c h ha hb
    have quotient : c.value = a.value / b.value := by
      change (if b.isZero then none else Decimal.ofRat (a.value / b.value)) = some c at h
      split_ifs at h
      exact Decimal.ofRat_value h
    rw [quotient]
    exact div_nonneg ha hb.le

end QuantForge
