import QuantForge.Model.DecimalMath
import QuantForge.Model.Futures.NetSummary
import QuantForge.Math.Binary64
import QuantForge.Math.DoubleRounding

namespace QuantForge

open Rounding

namespace Decimal

/-- `m / n` to the nearest whole number, half to even. -/
def halfEven (m n : Nat) : Nat :=
  if n < 2 * (m % n) ∨ (2 * (m % n) = n ∧ m / n % 2 = 1) then m / n + 1 else m / n

theorem halfEven_le (m n : Nat) : halfEven m n ≤ m / n + 1 := by
  unfold halfEven
  split_ifs
  · rfl
  · omega

theorem halfEven_lt {m n : Nat} (hm : m < 2 ^ 96) (hn : 2 ≤ n) : halfEven m n < 2 ^ 96 := by
  have hle := halfEven_le m n
  have hhalf : m / n ≤ m / 2 := Nat.div_le_div_left hn (by decide)
  omega

theorem halfEven_roundsInt {m n : Nat} (hn : 0 < n) :
    Binary64.RoundsInt ((m : ℚ) / n) (halfEven m n) := by
  have hsplit : (m : Int) = (m / n : Nat) * n + (m % n : Nat) := by
    exact_mod_cast (Nat.div_add_mod' m n).symm
  have hrest : m % n < n := Nat.mod_lt m hn
  apply Binary64.roundsInt_div hn
  unfold halfEven
  split_ifs with hup
  · have distance : (m : Int) - (m / n + 1 : Nat) * n = (m % n : Nat) - n := by
      rw [hsplit]
      push_cast
      ring
    rw [distance, abs_of_nonpos (by omega)]
    rcases hup with habove | ⟨htie, hodd⟩
    · left
      omega
    · right
      exact ⟨by omega, Nat.even_iff.mpr (by omega)⟩
  · have distance : (m : Int) - (m / n : Nat) * n = (m % n : Nat) := by
      rw [hsplit]
      ring
    rw [distance, abs_of_nonneg (by omega)]
    by_cases htie : 2 * (m % n) = n
    · right
      exact ⟨by omega, Nat.even_iff.mpr (by omega)⟩
    · left
      omega

/-- Rounding the digits is rounding the number. -/
theorem roundEven_div {m n : Nat} (hn : 0 < n) : roundEven ((m : ℚ) / n) = halfEven m n := by
  have h : Ties.even.Rounds ((m : ℚ) / n) (halfEven m n : Nat) := by
    rcases halfEven_roundsInt (m := m) hn with h | ⟨h, heven⟩
    · left
      exact_mod_cast h
    · right
      refine ⟨by exact_mod_cast h, ?_⟩
      show ((halfEven m n : Nat) : Int) % 2 = 0
      have := Nat.even_iff.mp heven
      omega
  exact (Ties.roundEven_rounds _).unique h

/-- `round_dp_with_strategy`, half to even; a zero takes the scale asked for. -/
def roundDp (d : Decimal) (dp : Nat) : Decimal :=
  if hzero : d.isZero = true ∧ dp ≤ 28 then { d with scale := dp, scale_le := hzero.2 }
  else if h : d.scale ≤ dp then d
  else
    ⟨d.negative, halfEven d.mantissa (10 ^ (d.scale - dp)), dp,
      halfEven_lt d.mantissa_lt ((by decide : 2 ≤ 10 ^ 1).trans
        (Nat.pow_le_pow_right (by decide) (by omega))), (not_le.mp h).le.trans d.scale_le⟩

theorem roundDp_scale {d : Decimal} {dp : Nat} : (d.roundDp dp).scale ≤ dp := by
  unfold roundDp
  split_ifs with hzero h
  · exact le_rfl
  · exact h
  · exact le_rfl

theorem roundDp_value (d : Decimal) (dp : Nat) :
    (d.roundDp dp).value = roundEven (d.value * 10 ^ dp) / 10 ^ dp := by
  have hpow (s : Nat) : (10 : ℚ) ^ s ≠ 0 := by positivity
  unfold roundDp
  split_ifs with hzero h
  · have hnone : d.value = 0 := isZero_iff.mp hzero.1
    have hmantissa : d.mantissa = 0 := by simpa [isZero] using hzero.1
    rw [hnone, zero_mul, roundEven_zero]
    simp [value, signed, hmantissa]
  · have hwhole : d.value * 10 ^ dp = (d.signed * 10 ^ (dp - d.scale) : Int) := by
      rw [value, ← pow_mul_pow_sub _ h, ← mul_assoc, div_mul_cancel₀ _ (hpow _)]
      push_cast
      rfl
    rw [hwhole, roundEven_intCast, ← hwhole, mul_div_cancel_right₀ _ (hpow dp)]
  · have hscaled : d.value * 10 ^ dp = d.signed / ((10 ^ (d.scale - dp) : Nat) : ℚ) := by
      rw [value, ← pow_mul_pow_sub (10 : ℚ) (not_le.mp h).le, div_mul_eq_mul_div,
        mul_comm ((10 : ℚ) ^ dp), mul_div_mul_right _ _ (hpow dp)]
      push_cast
      rfl
    have hdigits := roundEven_div (m := d.mantissa) (n := 10 ^ (d.scale - dp)) (by positivity)
    rw [hscaled, value, signed, signed]
    by_cases hneg : d.negative = true
    · rw [if_pos hneg, if_pos hneg]
      push_cast at hdigits ⊢
      rw [neg_div ((10 : ℚ) ^ (d.scale - dp)), roundEven_neg, hdigits]
      push_cast
      rfl
    · rw [if_neg hneg, if_neg hneg]
      push_cast at hdigits ⊢
      rw [hdigits]
      rfl

/-- A quotient is rounded at the most places it leaves room for, or nothing is answered where
it is out of range. -/
structure Divides (ties : Ties) (answer : Option Decimal) (q : ℚ) : Prop where
  fits_iff : answer.isSome = true ↔ format.Fits q 0
  value_eq {d : Decimal} : answer = some d → ∃ m : ℤ,
    ties.Rounds (q * 10 ^ format.places q) m ∧ d.value = m / 10 ^ format.places q

end Decimal

/-- `rust_decimal`'s division by a positive number. -/
class DivisionMath (ties : Ties) [DecimalMath] : Prop where
  div_rounds {a b : Decimal} : 0 < b.value →
    Decimal.Divides ties (DecimalMath.checkedDiv a b) (a.value / b.value)

theorem DecimalMath.rounding_divisionMath : @DivisionMath .even DecimalMath.rounding := by
  let _ := DecimalMath.rounding
  constructor
  intro a b hb
  have h := DecimalMath.rounding_roundedMath.div_rounds (a := a) hb.ne'
  refine ⟨h.fits_iff, ?_⟩
  intro d hd
  exact ⟨_, Ties.roundEven_rounds _, h.value_eq hd⟩

namespace RealizedPnl

section

variable [DecimalArith] [DecimalMath]

/-- The return on the position: net ÷ entry notional, both in the settlement asset, rounded
half-even to 8 places; nothing while net is pending. -/
def returnOn (self : RealizedPnl) (entryNotional : Money) : Except ModelError (Option Decimal) := do
  let notional ← entryNotional.inAsset self.settle
  if notional.amount.le .zero then
    throw (.invalidAmount "entry notional" notional.toText "positive")
  match self.net with
  | none => return none
  | some net =>
    match DecimalMath.checkedDiv net.amount.amount notional.amount with
    | none => throw (.invalidAmount "return" net.amount.toText "within range")
    | some ratio => return some (ratio.roundDp 8)

end

/-- A return was reported to be out of range. -/
def ReportsReturn (answer : Except ModelError (Option Decimal)) : Prop :=
  ∃ value, answer = .error (.invalidAmount "return" value "within range")

/-- `answer` is the decimal with at most 8 places nearest to `q`, or reports that `q` is out of
range. -/
def CorrectlyRounds (answer : Except ModelError (Option Decimal)) (q : ℚ) : Prop :=
  (¬ Decimal.format.Fits q 0 ∧ ReportsReturn answer) ∨
    ∃ d, answer = .ok (some d) ∧ d.scale ≤ 8 ∧ (Decimal.format.upTo 8).Nearest q d.value

/-- The quotient is rounded to a value midway between two of 8 places, and is itself on the
side of the odd one. -/
def Moved (ties : Ties) (q : ℚ) : Prop :=
  let n : ℤ := 10 ^ (Decimal.format.places q - 8)
  ∃ k : ℤ, Beyond (q * 10 ^ 8) k ∧
    ties.Rounds (q * 10 ^ Decimal.format.places q) (k * n + n / 2)

/-- The quotient is midway between two of the most places it leaves room for, and is rounded
to the odd one. -/
def OddTie (ties : Ties) (q : ℚ) : Prop :=
  ∃ m : ℤ, |q * 10 ^ Decimal.format.places q - m| = 1 / 2 ∧
    ties.Goes (q * 10 ^ Decimal.format.places q) m ∧ m % 2 = 1

/-- One rounding decides the return: the second where there is room for more than 8 places,
and else the first. -/
def RoundedOnce (ties : Ties) (q : ℚ) : Prop :=
  if 8 < Decimal.format.places q then ¬ Moved ties q
  else ¬ (Decimal.format.upTo 8).Gap q ∧ ¬ OddTie ties q

section

open Decimal

variable {ties : Ties} {q : ℚ} {m : ℤ}

theorem upTo_base : ((format.upTo 8).base : ℚ) = 10 := by norm_num [Format.upTo, format]

theorem upTo_base_even : (format.upTo 8).base % 2 = 0 := by decide

/-- Where there is room for more than 8 places, two roundings end where one does unless the
first moves the quotient to a midpoint. -/
theorem nearest_twice_iff (hfits : format.Fits q 0) (hp : 8 < format.places q)
    (hm : ties.Rounds (q * 10 ^ format.places q) m) :
    (format.upTo 8).Nearest q (roundEven ((m : ℚ) / 10 ^ format.places q * 10 ^ 8) / 10 ^ 8) ↔
      ¬ Moved ties q := by
  have hplaces : (format.upTo 8).places q = 8 := Format.upTo_places_of_ge hp.le hfits
  have hgrid (k : ℤ) : (format.upTo 8).OnGrid ((format.upTo 8).places q) ((k : ℚ) / 10 ^ 8) := by
    refine ⟨k, ?_⟩
    rw [hplaces, upTo_base]
  have hgap : ¬ (format.upTo 8).Gap q := fun h => absurd h.1 (by rw [hplaces]; exact lt_irrefl 8)
  have hrounded : (format.upTo 8).rounded q = roundEven (q * 10 ^ 8) / 10 ^ 8 := by
    rw [Format.rounded, Format.units, hplaces, upTo_base]
  rw [Format.nearest_iff upTo_base_even (Format.upTo_fits.mpr hfits) (hgrid _), hrounded,
    div_left_inj' (by positivity), Int.cast_inj, and_iff_right hgap]
  set n : ℕ := 10 ^ (format.places q - 8) with hn
  have hpos : 0 < n := by positivity
  have heven : n % 2 = 0 := by
    obtain ⟨j, hj⟩ : ∃ j, format.places q - 8 = j + 1 := ⟨format.places q - 9, by omega⟩
    rw [hn, hj, pow_succ]
    omega
  have hpow : (10 : ℚ) ^ format.places q = 10 ^ 8 * n := by
    rw [hn, ← pow_mul_pow_sub (10 : ℚ) hp.le]
    push_cast
    rfl
  have hscaled : q * 10 ^ format.places q = q * 10 ^ 8 * n := by
    rw [hpow, mul_assoc]
  have hquotient : (m : ℚ) / 10 ^ format.places q * 10 ^ 8 = m / n := by
    rw [hpow, div_mul_eq_mul_div, mul_comm (m : ℚ), mul_div_mul_left _ _ (by positivity)]
  rw [hscaled] at hm
  rw [hquotient, roundEven_twice_iff hpos heven hm.le, not_iff_not, Moved, hscaled]
  have hcast : ((10 : ℤ) ^ (format.places q - 8)) = n := by
    rw [hn]
    push_cast
    rfl
  simp only [hcast, midpoint_reached_iff hpos heven hm]
  exact exists_congr fun k => and_comm

/-- Where there is not, the second rounding changes nothing. -/
theorem nearest_once_iff (hfits : format.Fits q 0) (hp : format.places q ≤ 8)
    (hm : ties.Rounds (q * 10 ^ format.places q) m) :
    (format.upTo 8).Nearest q (roundEven ((m : ℚ) / 10 ^ format.places q * 10 ^ 8) / 10 ^ 8) ↔
      ¬ (format.upTo 8).Gap q ∧ ¬ OddTie ties q := by
  have hplaces : (format.upTo 8).places q = format.places q :=
    Format.upTo_places_of_le hp (by decide) hfits
  have hwhole : (m : ℚ) / 10 ^ format.places q * 10 ^ 8 =
      (m * 10 ^ (8 - format.places q) : ℤ) := by
    rw [← pow_mul_pow_sub (10 : ℚ) hp, ← mul_assoc, div_mul_cancel₀ _ (by positivity)]
    push_cast
    rfl
  have hsame : (roundEven ((m : ℚ) / 10 ^ format.places q * 10 ^ 8) : ℚ) / 10 ^ 8 =
      m / 10 ^ format.places q := by
    rw [hwhole, roundEven_intCast, ← hwhole, mul_div_cancel_right₀ _ (by positivity)]
  have hgrid : (format.upTo 8).OnGrid ((format.upTo 8).places q)
      ((m : ℚ) / 10 ^ format.places q) := by
    refine ⟨m, ?_⟩
    rw [hplaces, upTo_base]
  have hrounded : (format.upTo 8).rounded q =
      roundEven (q * 10 ^ format.places q) / 10 ^ format.places q := by
    rw [Format.rounded, Format.units, hplaces, upTo_base]
  rw [hsame, Format.nearest_iff upTo_base_even (Format.upTo_fits.mpr hfits) hgrid, hrounded,
    div_left_inj' (by positivity), Int.cast_inj, hm.eq_roundEven_iff]
  apply and_congr_right
  intro _
  constructor
  · rintro heven ⟨k, htie, hgoes, hodd⟩
    have hk : ties.Rounds (q * 10 ^ format.places q) k := .inr ⟨htie, hgoes⟩
    rw [hk.unique hm] at htie hodd
    have := heven htie
    omega
  · intro hodd htie
    by_contra hne
    have hgoes := (hm.resolve_left htie.not_lt).2
    exact hodd ⟨m, htie, hgoes, by omega⟩

theorem nearest_roundDp_iff (hfits : format.Fits q 0)
    (hm : ties.Rounds (q * 10 ^ format.places q) m) :
    (format.upTo 8).Nearest q (roundEven ((m : ℚ) / 10 ^ format.places q * 10 ^ 8) / 10 ^ 8) ↔
      RoundedOnce ties q := by
  unfold RoundedOnce
  split_ifs with hp
  · exact nearest_twice_iff hfits hp hm
  · exact nearest_once_iff hfits (not_lt.mp hp) hm

end

section

open Decimal

variable [DecimalArith] [DecimalMath] {self : RealizedPnl} {net : PnlFigure} {entryNotional : Money}

/-- The return comes from the quotient alone. -/
theorem returnOn_eq (hnet : self.net = some net) (hasset : entryNotional.asset = self.settle)
    (hpos : 0 < entryNotional.amount.value) :
    self.returnOn entryNotional =
      match DecimalMath.checkedDiv net.amount.amount entryNotional.amount with
      | none => .error (.invalidAmount "return" net.amount.toText "within range")
      | some ratio => .ok (some (ratio.roundDp 8)) := by
  have hin : entryNotional.inAsset self.settle = .ok entryNotional := if_neg (not_not.mpr hasset)
  have hle : entryNotional.amount.le .zero = false := not_le_zero.mpr hpos
  rw [returnOn, hin, hnet]
  show (if entryNotional.amount.le .zero = true then _ else _) = _
  rw [hle]
  rfl

/-- The return is correctly rounded exactly where one rounding decides it. -/
theorem returnOn_rounds_iff (ties : Ties) [DivisionMath ties] (hnet : self.net = some net)
    (hasset : entryNotional.asset = self.settle) (hpos : 0 < entryNotional.amount.value) :
    let q := net.amount.amount.value / entryNotional.amount.value
    CorrectlyRounds (self.returnOn entryNotional) q ↔ ¬ format.Fits q 0 ∨ RoundedOnce ties q := by
  intro q
  have hdiv : Divides ties (DecimalMath.checkedDiv net.amount.amount entryNotional.amount) q :=
    DivisionMath.div_rounds hpos
  rw [returnOn_eq hnet hasset hpos]
  cases hanswer : DecimalMath.checkedDiv net.amount.amount entryNotional.amount with
  | none =>
    have hrange : ¬ format.Fits q 0 := by
      rw [← hdiv.fits_iff, hanswer]
      simp
    exact iff_of_true (.inl ⟨hrange, _, rfl⟩) (.inl hrange)
  | some ratio =>
    have hfits : format.Fits q 0 := hdiv.fits_iff.mp (by rw [hanswer]; rfl)
    obtain ⟨m, hm, hratio⟩ := hdiv.value_eq hanswer
    have hvalue := roundDp_value ratio 8
    rw [hratio] at hvalue
    rw [or_iff_right (not_not.mpr hfits), ← nearest_roundDp_iff hfits hm, ← hvalue]
    constructor
    · rintro (⟨h, -⟩ | ⟨d, hd, -, hnearest⟩)
      · exact absurd hfits h
      · cases hd
        exact hnearest
    · intro hnearest
      exact .inr ⟨_, rfl, roundDp_scale, hnearest⟩

end

section Halfway

attribute [local instance] DecimalArith.rounding DecimalMath.rounding

/-- A net summary whose other figures are pending. -/
def netOnly (amount : Decimal) : RealizedPnlParts where
  settle := .usdt
  gross := none
  fees := none
  funding := none
  net := some (inUsdt amount .closedPnl)
  otherFees := []
  status := .provisional

theorem netOnly_check (amount : Decimal) : (netOnly amount).check = .ok () := rfl

def netPnl (amount : Decimal) : RealizedPnl := ⟨netOnly amount, netOnly_check amount⟩

theorem return_of_ten :
    let q := (inUsdt (.ofNat 10) .closedPnl).amount.amount.value /
      (inUsdt (.ofNat 4) .fills).amount.amount.value
    CorrectlyRounds ((netPnl (.ofNat 10)).returnOn (inUsdt (.ofNat 4) .fills).amount) q ↔
      ¬ Decimal.format.Fits q 0 ∨ RoundedOnce .even q := by
  have _ := DecimalMath.rounding_divisionMath
  exact returnOn_rounds_iff .even rfl rfl (by decide +kernel)

/-- A net of 350000000000000000001 on a notional of 7 · 10^28: the quotient lies above
0.000000005 by less than the 28th place. -/
def aboveHalf : RealizedPnl := netPnl (.ofNat 350000000000000000001)

def largeNotional : Money := (inUsdt (.ofNat (7 * 10 ^ 28)) .fills).amount

/-- It is rounded to that midpoint and then down to zero, and 0.00000001 is nearer. -/
theorem aboveHalf_moved : ¬ CorrectlyRounds (aboveHalf.returnOn largeNotional)
    (350000000000000000001 / (7 * 10 ^ 28)) := by
  have computed : (aboveHalf.returnOn largeNotional).map (Option.map Decimal.value) =
      .ok (some 0) := by
    decide +kernel
  intro h
  rcases h with ⟨-, value, hreports⟩ | ⟨d, hd, -, hnearest⟩
  · rw [hreports] at computed
    cases computed
  · rw [hd] at computed
    have hvalue : d.value = 0 := Option.some.inj (Except.ok.inj computed)
    have hholds : (Decimal.format.upTo 8).Holds (1 / 10 ^ 8) :=
      ⟨1, 8, by decide, by decide, by norm_num [upTo_base]⟩
    have hleast := hnearest.least hholds
    rw [hvalue] at hleast
    norm_num [abs_of_nonneg, abs_of_nonpos] at hleast

end Halfway

end RealizedPnl

end QuantForge
