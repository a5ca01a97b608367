import Mathlib.Algebra.Group.Nat.Defs
import Mathlib.Data.Nat.Size
import Mathlib.Tactic.Common

namespace QuantForge.U128

/-- A number that is a `u128`. -/
def checked (n : Nat) : Option Nat := if n < 2 ^ 128 then some n else none

def pow (base exponent : Nat) : Option Nat := checked (base ^ exponent)

/-- A left shift that loses no bits. -/
def shl (n shift : Nat) : Option Nat := if shift < 128 then checked (n <<< shift) else none

def shr (n shift : Nat) : Option Nat := if shift < 128 then some (n >>> shift) else none

def add (a b : Nat) : Option Nat := checked (a + b)

def sub (a b : Nat) : Option Nat := if b ≤ a then some (a - b) else none

def div (a b : Nat) : Option Nat := if b = 0 then none else some (a / b)

def rem (a b : Nat) : Option Nat := if b = 0 then none else some (a % b)

/-- How many bits a number takes: those of `u128` but for its leading zeros. -/
def bits (n : Nat) : Nat := n.size

theorem bits_le {n k : Nat} : bits n ≤ k ↔ n < 2 ^ k := Nat.size_le

theorem lt_bits {n k : Nat} : k < bits n ↔ 2 ^ k ≤ n := Nat.lt_size

theorem lt_bits_self (n : Nat) : n < 2 ^ bits n := Nat.lt_size_self n

theorem pow_bits_le {n : Nat} (h : 0 < n) : 2 ^ (bits n - 1) ≤ n := by
  rw [← lt_bits]
  have positive : 0 < bits n := Nat.size_pos.mpr h
  omega

theorem checked_lt {n : Nat} (h : n < 2 ^ 128) : checked n = some n := if_pos h

theorem shl_lt {n shift : Nat} (hshift : shift < 128) (h : n * 2 ^ shift < 2 ^ 128) :
    shl n shift = some (n * 2 ^ shift) := by
  rw [shl, if_pos hshift, Nat.shiftLeft_eq, checked_lt h]

theorem shr_lt {n shift : Nat} (hshift : shift < 128) : shr n shift = some (n / 2 ^ shift) := by
  rw [shr, if_pos hshift, Nat.shiftRight_eq_div_pow]

end QuantForge.U128
