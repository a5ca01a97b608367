import QuantForge.Model.Text
import Mathlib.Data.Nat.Digits.Defs
import Mathlib.Algebra.Order.Field.Rat
import Mathlib.Tactic.Ring
import Mathlib.Tactic.Linarith
import Mathlib.Tactic.Positivity

namespace QuantForge

/-- A `rust_decimal` value: a sign, a 96-bit mantissa and a scale of at most 28. -/
structure Decimal where
  negative : Bool
  mantissa : Nat
  scale : Nat
  mantissa_lt : mantissa < 2 ^ 96
  scale_le : scale ≤ 28
  deriving DecidableEq

namespace Decimal

def zero : Decimal := ⟨false, 0, 0, by decide, by decide⟩

def ofNat (n : Nat) (h : n < 2 ^ 96 := by decide) : Decimal := ⟨false, n, 0, h, by decide⟩

theorem one_lt : 1 < 2 ^ 96 := by decide

theorem hundred_lt : 100 < 2 ^ 96 := by decide

theorem uint32_lt (n : UInt32) : n.toNat < 2 ^ 96 := n.toNat_lt.trans (by decide)

def ofUInt32 (n : UInt32) : Decimal := ofNat n.toNat (uint32_lt n)

def tenths (n : UInt32) : Decimal := ⟨false, n.toNat, 1, uint32_lt n, by decide⟩

def hundredths (n : UInt32) : Decimal := ⟨false, n.toNat, 2, uint32_lt n, by decide⟩

def negate (d : Decimal) : Decimal := { d with negative := !d.negative }

def isZero (d : Decimal) : Bool := d.mantissa == 0

def signed (d : Decimal) : Int := if d.negative then -d.mantissa else d.mantissa

/-- The number a decimal stands for. -/
def value (d : Decimal) : ℚ := d.signed / 10 ^ d.scale

/-- `rust_decimal`'s ordering and equality compare numbers, not spellings:
`1.0` equals `1.00`. -/
def le (a b : Decimal) : Bool := a.signed * 10 ^ b.scale ≤ b.signed * 10 ^ a.scale

def eqv (a b : Decimal) : Bool := a.signed * 10 ^ b.scale == b.signed * 10 ^ a.scale

def lt (a b : Decimal) : Bool := !b.le a

def isWhole (d : Decimal) : Bool := d.mantissa % 10 ^ d.scale == 0

/-- Zero made positive, and any other value as it is. -/
def canonical (d : Decimal) : Decimal := if d.isZero then { d with negative := false } else d

/-- The decimal digits of `n`, most significant first and at least `width` of them. -/
def digits (width n : Nat) : List Char :=
  let ds := (Nat.digits 10 n).map Nat.digitChar
  (ds ++ List.replicate (width - ds.length) '0').reverse

/-- How `rust_decimal` writes a decimal: every digit of its scale, and the
sign also on a negative zero. -/
def toText (d : Decimal) : String :=
  let ds := digits (d.scale + 1) d.mantissa
  let whole := ds.take (ds.length - d.scale)
  let fraction := ds.drop (ds.length - d.scale)
  String.ofList
    ((if d.negative then ['-'] else []) ++ whole ++
      (if d.scale = 0 then [] else '.' :: fraction))

theorem eqv_iff (a b : Decimal) : a.eqv b = true ↔ a.value = b.value := by
  have ha : (10 : ℚ) ^ a.scale ≠ 0 := by positivity
  have hb : (10 : ℚ) ^ b.scale ≠ 0 := by positivity
  rw [eqv, beq_iff_eq, value, value, div_eq_div_iff ha hb]
  exact_mod_cast Iff.rfl

theorem le_iff (a b : Decimal) : a.le b = true ↔ a.value ≤ b.value := by
  have ha : (0 : ℚ) < 10 ^ a.scale := by positivity
  have hb : (0 : ℚ) < 10 ^ b.scale := by positivity
  rw [le, decide_eq_true_iff, value, value, div_le_div_iff₀ ha hb]
  exact_mod_cast Iff.rfl

@[simp] theorem eqv_refl (a : Decimal) : a.eqv a = true := by simp [eqv]

theorem eqv_comm (a b : Decimal) : a.eqv b = b.eqv a := by
  rw [Bool.eq_iff_iff, eqv_iff, eqv_iff, eq_comm]

theorem eqv_trans {a b c : Decimal} (hab : a.eqv b = true) (hbc : b.eqv c = true) :
    a.eqv c = true := by
  rw [eqv_iff] at *
  exact hab.trans hbc

@[simp] theorem canonical_value (d : Decimal) : d.canonical.value = d.value := by
  unfold canonical
  split_ifs with h
  · have hm : d.mantissa = 0 := by simpa [isZero] using h
    simp [value, signed, hm]
  · rfl

theorem isZero_iff {d : Decimal} : d.isZero = true ↔ d.value = 0 := by
  have hpow : (10 : ℚ) ^ d.scale ≠ 0 := by positivity
  rw [isZero, beq_iff_eq, value, div_eq_zero_iff, or_iff_left hpow, Int.cast_eq_zero, signed]
  split_ifs <;> omega

end Decimal

end QuantForge
