import Mathlib.Algebra.Group.Int.Defs
import Mathlib.Tactic.Common

namespace QuantForge.Checked

/-- The `i64` a number is, if it is one. -/
def int64 (n : Int) : Option Int64 :=
  if -2 ^ 63 ≤ n ∧ n < 2 ^ 63 then some (Int64.ofInt n) else none

def mul (a b : Int64) : Option Int64 := int64 (a.toInt * b.toInt)

def add (a b : Int64) : Option Int64 := int64 (a.toInt + b.toInt)

theorem int64_some {n : Int} {i : Int64} : int64 n = some i ↔ i.toInt = n := by
  unfold int64
  constructor
  · intro h
    split_ifs at h with hrange
    rw [← Option.some.inj h]
    exact Int64.toInt_ofInt_of_le hrange.1 hrange.2
  · rintro rfl
    have hlow := Int64.le_toInt i
    have hhigh := Int64.toInt_lt i
    rw [if_pos ⟨hlow, hhigh⟩, Int64.ofInt_toInt]

theorem mul_some {a b i : Int64} : mul a b = some i ↔ i.toInt = a.toInt * b.toInt := int64_some

theorem add_some {a b i : Int64} : add a b = some i ↔ i.toInt = a.toInt + b.toInt := int64_some

end QuantForge.Checked
