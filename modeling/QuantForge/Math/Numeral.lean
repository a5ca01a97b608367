import Mathlib.Algebra.Order.Ring.Nat
import Mathlib.Tactic.Common
import Mathlib.Tactic.Ring
import Mathlib.Data.Nat.Digits.Lemmas

namespace QuantForge.Radix

/-- The `width` lowest digits of `n` in base `b`, least significant first. -/
def digits (b : Nat) : Nat → Nat → List Nat
  | 0, _ => []
  | width + 1, n => n % b :: digits b width (n / b)

def value (b : Nat) : List Nat → Nat
  | [] => 0
  | d :: ds => d + b * value b ds

@[simp] theorem digits_length (b width n : Nat) : (digits b width n).length = width := by
  induction width generalizing n with
  | zero => rfl
  | succ width ih => simp [digits, ih]

theorem digits_lt {b : Nat} (hb : 0 < b) (width n : Nat) : ∀ d ∈ digits b width n, d < b := by
  induction width generalizing n with
  | zero => simp [digits]
  | succ width ih =>
    intro d hd
    rcases List.mem_cons.mp hd with rfl | hd
    · exact Nat.mod_lt n hb
    · exact ih (n / b) d hd

theorem value_digits (b width n : Nat) : value b (digits b width n) = n % b ^ width := by
  induction width generalizing n with
  | zero => simp [digits, value, Nat.mod_one]
  | succ width ih =>
    rw [digits, value, ih, Nat.pow_succ, Nat.mul_comm (b ^ width) b, Nat.mod_mul]

theorem value_lt {b : Nat} (ds : List Nat) (hd : ∀ d ∈ ds, d < b) :
    value b ds < b ^ ds.length := by
  induction ds with
  | nil => simp [value]
  | cons d ds ih =>
    have hlow : d < b := hd d (by simp)
    have hhigh : value b ds + 1 ≤ b ^ ds.length := ih fun e he => hd e (by simp [he])
    have hmul : b * (value b ds + 1) ≤ b * b ^ ds.length := Nat.mul_le_mul_left b hhigh
    rw [value, List.length_cons, Nat.pow_succ, Nat.mul_comm (b ^ ds.length) b]
    rw [Nat.mul_add, Nat.mul_one] at hmul
    omega

theorem digits_value {b : Nat} (ds : List Nat) (hd : ∀ d ∈ ds, d < b) :
    digits b ds.length (value b ds) = ds := by
  induction ds with
  | nil => rfl
  | cons d ds ih =>
    have hlow : d < b := hd d (by simp)
    have hmod : (d + b * value b ds) % b = d := by
      rw [Nat.add_mul_mod_self_left, Nat.mod_eq_of_lt hlow]
    have hdiv : (d + b * value b ds) / b = value b ds := by
      rw [Nat.add_mul_div_left _ _ (by omega), Nat.div_eq_of_lt hlow, Nat.zero_add]
    rw [value, List.length_cons, digits, hmod, hdiv, ih fun e he => hd e (by simp [he])]

/-- Digits read most significant first are the same number. -/
theorem foldl_value (b : Nat) (ds : List Nat) (acc : Nat) :
    ds.reverse.foldl (fun n d => n * b + d) acc = acc * b ^ ds.length + value b ds := by
  induction ds generalizing acc with
  | nil => simp [value]
  | cons d ds ih =>
    rw [List.reverse_cons, List.foldl_append, ih, List.foldl_cons, List.foldl_nil, value,
      List.length_cons, Nat.pow_succ]
    ring

end QuantForge.Radix

namespace QuantForge.Numeral

/-- The number that digits in base `b` are, most significant first. -/
def value (b : Nat) (ds : List Nat) : Nat := ds.foldl (fun n d => n * b + d) 0

/-- The digits of `n` in base `b`, most significant first, without leading
zeros. -/
def digits (b n : Nat) : List Nat := if n = 0 then [0] else (Nat.digits b n).reverse

/-- Digits that start with a zero only as the number zero. -/
def Canonical (ds : List Nat) : Prop := ds = [0] ∨ (ds ≠ [] ∧ ds.head? ≠ some 0)

theorem value_reverse (b : Nat) (ds : List Nat) : value b ds.reverse = Nat.ofDigits b ds := by
  induction ds with
  | nil => rfl
  | cons d ds ih =>
    rw [List.reverse_cons, value, List.foldl_append, ← value, ih, List.foldl_cons, List.foldl_nil,
      Nat.ofDigits_cons, Nat.mul_comm, Nat.add_comm]

theorem value_digits (b n : Nat) : value b (digits b n) = n := by
  unfold digits
  split_ifs with h
  · simp [value, h]
  · rw [value_reverse, Nat.ofDigits_digits]

theorem digits_lt {b : Nat} (hb : 1 < b) (n : Nat) : ∀ d ∈ digits b n, d < b := by
  intro d hd
  unfold digits at hd
  split_ifs at hd with h
  · rw [List.mem_singleton.mp hd]
    omega
  · exact Nat.digits_lt_base hb (List.mem_reverse.mp hd)

theorem digits_canonical {b : Nat} (n : Nat) : Canonical (digits b n) := by
  unfold digits
  split_ifs with h
  · exact .inl rfl
  · have hne : Nat.digits b n ≠ [] := Nat.digits_ne_nil_iff_ne_zero.mpr h
    refine .inr ⟨by simpa using hne, ?_⟩
    rw [List.head?_reverse, List.getLast?_eq_some_getLast hne]
    intro hzero
    exact Nat.getLast_digit_ne_zero b h (Option.some.inj hzero)

/-- Canonical digits are the digits of their number. -/
theorem digits_value {b : Nat} (hb : 1 < b) {ds : List Nat} (hd : ∀ d ∈ ds, d < b)
    (hc : Canonical ds) : digits b (value b ds) = ds := by
  rcases hc with rfl | ⟨hne, hlead⟩
  · simp [value, digits]
  · have hvalue := value_reverse b ds.reverse
    rw [List.reverse_reverse] at hvalue
    have hlast : ∀ h : ds.reverse ≠ [], ds.reverse.getLast h ≠ 0 := by
      intro h hzero
      apply hlead
      rw [← List.getLast?_reverse, List.getLast?_eq_some_getLast h, hzero]
    have hdigits := Nat.digits_ofDigits b hb ds.reverse
      (fun d hmem => hd d (List.mem_reverse.mp hmem)) hlast
    have hpos : value b ds ≠ 0 := by
      intro hzero
      rw [← hvalue, hzero, Nat.digits_zero] at hdigits
      exact hne (List.reverse_eq_nil_iff.mp hdigits.symm)
    rw [digits, if_neg hpos, hvalue, hdigits, List.reverse_reverse]

/-- More digits make no smaller number. -/
theorem le_foldl {b : Nat} (hb : 0 < b) (ds : List Nat) (acc : Nat) :
    acc ≤ ds.foldl (fun n d => n * b + d) acc := by
  induction ds generalizing acc with
  | nil => exact le_rfl
  | cons d ds ih =>
    have hstep : acc ≤ acc * b := Nat.le_mul_of_pos_right acc hb
    have hrest := ih (acc * b + d)
    rw [List.foldl_cons]
    omega

theorem digits_length {b n len : Nat} (hb : 1 < b) (hlen : 0 < len) (h : n < b ^ len) :
    (digits b n).length ≤ len := by
  unfold digits
  split_ifs with hzero
  · exact hlen
  · rw [List.length_reverse]
    exact (Nat.digits_length_le_iff hb n).mpr h

end QuantForge.Numeral
