import QuantForge.Engine.Backtest.Telescopes
import QuantForge.Math.Drawdown
import Mathlib.Tactic.NormNum

namespace QuantForge

/-- Quotients rounded in one way, which keeps their order, 0 and 1. Exact quotients are
rounded by the identity. -/
class RoundedQuotient [DecimalMath] where
  round : ℚ → ℚ
  round_mono : Monotone round
  round_zero : round 0 = 0
  round_one : round 1 = 1
  div_value {a b c : Decimal} : DecimalMath.checkedDiv a b = some c →
    c.value = round (a.value / b.value)

namespace Backtest

open DecimalMath

section

variable [DecimalMath] {σ : Type} (cfg : BacktestConfig) (market : MarketId)
  (strategy : Strategy σ) (state : σ) (candles : List Candle)

/-- The equity at bar `i`'s close, after its fill. -/
def equity (i : Nat) : Option ℚ :=
  match candles[i]?, after cfg market strategy state candles (i + 1) with
  | some candle, .ok (_, r) =>
    some (r.account.cash.value + r.account.qty.value * candle.close.value)
  | _, _ => none

/-- The equities of the first `k` bars. -/
def equities (k : Nat) : List ℚ :=
  (List.range k).filterMap (equity cfg market strategy state candles)

end

section

variable [DecimalMath] {σ : Type} {cfg : BacktestConfig} {market : MarketId}
  {strategy : Strategy σ} {state : σ} {candles : List Candle}

theorem prepare_peak {feeRate : Decimal} {r : Replay σ}
    (h : prepare cfg market candles strategy state = .ok (feeRate, r)) :
    r.peakEquity = .zero ∧ r.maxDrawdown = .zero := by
  simp only [prepare, bind_ok] at h
  obtain ⟨_, -, started, -, h⟩ := h
  rw [← (Prod.mk.inj (Except.ok.inj h)).2]
  exact ⟨rfl, rfl⟩

/-- The mark of a bar's close is that of the account its fill left. -/
theorem bar_marks {feeRate : Decimal} {index : Nat} {candle : Candle} {r s : Replay σ}
    (h : bar market feeRate strategy index candle r = .ok s) :
    markEquity candle.close s.account r.peakEquity r.maxDrawdown =
      .ok (s.peakEquity, s.maxDrawdown) := by
  simp only [bar, presentBar, openBar, bind_ok] at h
  obtain ⟨presented, ⟨opened, ⟨account, -, hopened⟩, ⟨peak, fall⟩, hmark, hpresented⟩, ⟨_, _⟩, -,
    hs⟩ := h
  rw [← Except.ok.inj hs, ← Except.ok.inj hpresented]
  rw [← Except.ok.inj hopened] at hmark ⊢
  exact hmark

theorem report_drawdown {maxDrawdown : Decimal} {account : Account} {result : BacktestResult}
    (h : report cfg candles maxDrawdown account = .ok result) :
    checkedMul maxDrawdown (.ofNat 100) = some result.maxDrawdownPct := by
  unfold report at h
  cases hlast : candles.getLast? with
  | none => simp [hlast] at h
  | some last =>
    simp only [hlast, bind_ok, checked_ok] at h
    obtain ⟨_, -, _, -, pct, hpct, h⟩ := h
    rw [← Except.ok.inj h]
    exact hpct

theorem run_reports {result : BacktestResult} {final : σ}
    (h : run cfg market candles strategy state = .ok (result, final)) :
    ∃ feeRate r, after cfg market strategy state candles candles.length = .ok (feeRate, r) ∧
      checkedMul r.maxDrawdown (.ofNat 100) = some result.maxDrawdownPct := by
  rw [run_eq] at h
  obtain ⟨⟨feeRate, r⟩, hafter, h⟩ := bind_ok.mp h
  simp only [bind_ok] at h
  obtain ⟨account, -, finished, -, reported, hreport, h⟩ := h
  rw [← (Prod.mk.inj (Except.ok.inj h)).1]
  exact ⟨feeRate, r, hafter, report_drawdown hreport⟩

variable [ExactMath] [RoundedQuotient]

/-- The bar's mark is one step of the pass over the equities, with every fall rounded. -/
theorem markEquity_step {close : Decimal} {account : Account} {peak fall newPeak newFall : Decimal}
    {d : ℚ} (hfall : fall.value = RoundedQuotient.round d)
    (h : markEquity close account peak fall = .ok (newPeak, newFall)) :
    newPeak.value = (Drawdown.step (peak.value, d)
        (account.cash.value + account.qty.value * close.value)).1 ∧
      newFall.value = RoundedQuotient.round (Drawdown.step (peak.value, d)
        (account.cash.value + account.qty.value * close.value)).2 := by
  unfold markEquity at h
  obtain ⟨equity, hmark, h⟩ := bind_ok.mp h
  rw [← mark_value hmark]
  have hpeak : (if peak.lt equity then equity else peak).value = max peak.value equity.value := by
    rw [← Drawdown.raised]
    by_cases hlt : peak.value < equity.value
    · rw [if_pos hlt, if_pos ((Decimal.lt_iff _ _).mpr hlt)]
    · rw [if_neg hlt, if_neg (mt (Decimal.lt_iff _ _).mp hlt)]
  generalize (if peak.lt equity then equity else peak) = raisedPeak at h hpeak
  by_cases hpos : 0 < raisedPeak.value
  · rw [if_pos (Decimal.zero_lt.mpr hpos)] at h
    obtain ⟨drawdown, hdrawdown, h⟩ := bind_ok.mp h
    rw [checked_ok, Option.bind_eq_some_iff] at hdrawdown
    obtain ⟨difference, hsub, hdiv⟩ := hdrawdown
    have hvalue : drawdown.value =
        RoundedQuotient.round ((max peak.value equity.value - equity.value) /
          max peak.value equity.value) := by
      rw [RoundedQuotient.div_value hdiv, ExactMath.sub_value hsub, hpeak]
    rw [Except.ok.injEq, Prod.mk.injEq] at h
    rw [hpeak] at hpos
    rw [Drawdown.step_peak, Drawdown.step_fall hpos, ← h.1, ← h.2]
    refine ⟨hpeak, ?_⟩
    rw [RoundedQuotient.round_mono.map_max, ← hfall, ← hvalue, ← Drawdown.raised]
    by_cases hlt : fall.value < drawdown.value
    · rw [if_pos hlt, if_pos ((Decimal.lt_iff _ _).mpr hlt)]
    · rw [if_neg hlt, if_neg (mt (Decimal.lt_iff _ _).mp hlt)]
  · rw [if_neg (mt Decimal.zero_lt.mp hpos), Except.ok.injEq, Prod.mk.injEq] at h
    rw [hpeak] at hpos
    rw [Drawdown.step_peak, Drawdown.step_idle hpos, ← h.1, ← h.2]
    exact ⟨hpeak, hfall⟩

/-- What a run has found of its equities before bar `k`. -/
theorem after_drawdown {k : Nat} (hk : k ≤ candles.length) {feeRate : Decimal} {r : Replay σ}
    (h : after cfg market strategy state candles k = .ok (feeRate, r)) :
    (equities cfg market strategy state candles k).length = k ∧
      r.peakEquity.value =
        (Drawdown.pass (equities cfg market strategy state candles k)).1 ∧
      r.maxDrawdown.value =
        RoundedQuotient.round (Drawdown.pass (equities cfg market strategy state candles k)).2 := by
  induction k generalizing r with
  | zero =>
    obtain ⟨hpeak, hfall⟩ := prepare_peak (after_zero h)
    refine ⟨rfl, ?_, ?_⟩
    · rw [hpeak, Decimal.zero_value]
      rfl
    · rw [hfall, Decimal.zero_value]
      exact RoundedQuotient.round_zero.symm
  | succ k ih =>
    have hlt : k < candles.length := by omega
    have hcandle : candles[k]? = some candles[k] := List.getElem?_eq_getElem hlt
    obtain ⟨before, hbefore, hbar⟩ := after_bar hcandle h
    obtain ⟨hcount, hpeak, hfall⟩ := ih (by omega) hbefore
    have hstep := markEquity_step hfall (bar_marks hbar)
    rw [hpeak] at hstep
    have hequity : equity cfg market strategy state candles k =
        some (r.account.cash.value + r.account.qty.value * candles[k].close.value) := by
      rw [equity, h, hcandle]
    have hequities : equities cfg market strategy state candles (k + 1) =
        equities cfg market strategy state candles k ++
          [r.account.cash.value + r.account.qty.value * candles[k].close.value] := by
      rw [equities, List.range_succ, List.filterMap_append, List.filterMap_cons, hequity]
      rfl
    rw [hequities, Drawdown.pass_append, List.length_append, List.length_singleton, hcount]
    exact ⟨rfl, hstep⟩

/-- The drawdown a run reports is a hundred times the largest fall from a close-marked equity
to one no earlier, lies between 0 and 100, and is the same with and without the close-out. -/
theorem run_drawdown {result : BacktestResult} {final : σ}
    (h : run cfg market candles strategy state = .ok (result, final)) :
    (equities cfg market strategy state candles candles.length).length = candles.length ∧
    ((∀ e ∈ equities cfg market strategy state candles candles.length, 0 ≤ e) →
      ∃ d, Drawdown.IsLargestFall (equities cfg market strategy state candles candles.length) d ∧
        result.maxDrawdownPct.value = 100 * RoundedQuotient.round d ∧
        0 ≤ result.maxDrawdownPct.value ∧ result.maxDrawdownPct.value ≤ 100) ∧
    ∀ closeOutAtEnd other last,
      run { cfg with closeOutAtEnd } market candles strategy state = .ok (other, last) →
        other.maxDrawdownPct = result.maxDrawdownPct := by
  obtain ⟨feeRate, r, hafter, hpct⟩ := run_reports h
  obtain ⟨hcount, -, hfall⟩ := after_drawdown le_rfl hafter
  refine ⟨hcount, ?_, ?_⟩
  · intro hnonneg
    have hkept := Drawdown.pass_kept hnonneg
    have hhundred : (Decimal.ofNat 100).value = 100 := by
      norm_num [Decimal.ofNat, Decimal.value, Decimal.signed]
    have hvalue := ExactMath.mul_value hpct
    rw [hfall, hhundred, mul_comm] at hvalue
    have hlow := RoundedQuotient.round_mono hkept.range.1
    have hhigh := RoundedQuotient.round_mono hkept.range.2
    rw [RoundedQuotient.round_zero] at hlow
    rw [RoundedQuotient.round_one] at hhigh
    refine ⟨_, hkept.largest, hvalue, ?_, ?_⟩
    · rw [hvalue]
      linarith
    · rw [hvalue]
      linarith
  · intro closeOutAtEnd other last hother
    obtain ⟨otherRate, s, hsame, hotherPct⟩ := run_reports hother
    have hafters : after { cfg with closeOutAtEnd } market strategy state candles candles.length =
        after cfg market strategy state candles candles.length := rfl
    rw [hafters, hafter, Except.ok.injEq, Prod.mk.injEq] at hsame
    rw [← hsame.2, hpct, Option.some.injEq] at hotherPct
    exact hotherPct.symm

end

attribute [local instance] DecimalMath.exact_ DecimalMath.exact_exactMath

/-- Exact quotients. -/
@[reducible] def exactQuotient : RoundedQuotient where
  round := id
  round_mono := monotone_id
  round_zero := rfl
  round_one := rfl
  div_value := by
    intro a b c h
    change (if b.isZero then none else Decimal.ofRat (a.value / b.value)) = some c at h
    split_ifs at h
    exact Decimal.ofRat_value h

attribute [local instance] exactQuotient

theorem sample_drawdown :
    (equities sampleConfig sampleMarket sampleStrategy 0 sampleBars sampleBars.length).length =
        sampleBars.length ∧
    ((∀ e ∈ equities sampleConfig sampleMarket sampleStrategy 0 sampleBars sampleBars.length,
        0 ≤ e) →
      ∃ d, Drawdown.IsLargestFall
          (equities sampleConfig sampleMarket sampleStrategy 0 sampleBars sampleBars.length) d ∧
        sampleResult.maxDrawdownPct.value = 100 * RoundedQuotient.round d ∧
        0 ≤ sampleResult.maxDrawdownPct.value ∧ sampleResult.maxDrawdownPct.value ≤ 100) ∧
    ∀ closeOutAtEnd other last,
      run { sampleConfig with closeOutAtEnd } sampleMarket sampleBars sampleStrategy 0 =
          .ok (other, last) →
        other.maxDrawdownPct = sampleResult.maxDrawdownPct :=
  run_drawdown (show run sampleConfig sampleMarket sampleBars sampleStrategy 0 =
    .ok (sampleResult, 4) by decide +kernel)

end Backtest

end QuantForge
