import QuantForge.Engine.Backtest
import QuantForge.Framework.Reader

namespace QuantForge.Backtest

open DecimalMath

variable [DecimalMath] {σ : Type} (cfg : BacktestConfig) (market : MarketId)
  (strategy : Strategy σ) (state : σ) (candles : List Candle)

/-- The fee rate and the run after the first `k` bars. -/
def after (k : Nat) : Except EngineError (Decimal × Replay σ) := do
  let (feeRate, r) ← prepare cfg market candles strategy state
  let r ← bars market feeRate strategy 0 (candles.take k) r
  .ok (feeRate, r)

theorem bars_append {market : MarketId} {feeRate : Decimal} {strategy : Strategy σ} {index : Nat}
    {front back : List Candle} {r : Replay σ} :
    bars market feeRate strategy index (front ++ back) r =
      (bars market feeRate strategy index front r).bind fun s =>
        bars market feeRate strategy (index + front.length) back s := by
  induction front generalizing index r with
  | nil => rfl
  | cons candle front ih =>
    simp only [List.cons_append, bars, List.length_cons, bind, Except.bind]
    cases bar market feeRate strategy index candle r with
    | error error => rfl
    | ok s =>
      simp only [ih, Except.bind, Nat.add_right_comm index 1 front.length, Nat.add_assoc]

/-- One bar more. -/
theorem after_succ {k : Nat} {candle : Candle} (hk : candles[k]? = some candle) :
    after cfg market strategy state candles (k + 1) =
      (after cfg market strategy state candles k).bind fun (feeRate, r) =>
        (bar market feeRate strategy k candle r).map fun s => (feeRate, s) := by
  have hlength : (candles.take k).length = k := by
    rw [List.length_take]
    have inside := (List.getElem?_eq_some_iff.mp hk).1
    omega
  unfold after
  cases prepare cfg market candles strategy state with
  | error error => rfl
  | ok ready =>
    obtain ⟨feeRate, r⟩ := ready
    simp only [bind, Except.bind, List.take_add_one, hk, Option.toList_some, bars_append, hlength,
      Nat.zero_add]
    cases bars market feeRate strategy 0 (candles.take k) r with
    | error error => rfl
    | ok s =>
      simp only [bars, bind, Except.bind, Except.map]
      cases bar market feeRate strategy k candle s <;> rfl

/-- A run is its bars, then the close-out, the finish callback and the report. -/
theorem run_eq :
    run cfg market candles strategy state =
      (after cfg market strategy state candles candles.length).bind fun (feeRate, r) => (do
        let account ← closeOut cfg market feeRate candles r.account
        let state ← callback (strategy.onFinish
          { r.ctx with cash := account.cash, positionQty := account.qty } r.strategy)
        let result ← report cfg candles r.maxDrawdown account
        .ok (result, state)) := by
  unfold run after
  cases prepare cfg market candles strategy state with
  | error error => rfl
  | ok ready =>
    obtain ⟨feeRate, r⟩ := ready
    simp only [bind, Except.bind, List.take_length]
    cases bars market feeRate strategy 0 candles r <;> rfl

variable {cfg market strategy state candles} {feeRate : Decimal} {r s : Replay σ}

theorem after_zero (h : after cfg market strategy state candles 0 = .ok (feeRate, r)) :
    prepare cfg market candles strategy state = .ok (feeRate, r) := by
  unfold after at h
  obtain ⟨⟨rate, s⟩, hprepare, h⟩ := bind_ok.mp h
  obtain ⟨t, hbars, h⟩ := bind_ok.mp h
  cases hbars
  cases h
  exact hprepare

/-- The run after a bar is the run before it, taken over the bar. -/
theorem after_bar {k : Nat} {candle : Candle} (hk : candles[k]? = some candle)
    (h : after cfg market strategy state candles (k + 1) = .ok (feeRate, s)) :
    ∃ r, after cfg market strategy state candles k = .ok (feeRate, r) ∧
      bar market feeRate strategy k candle r = .ok s := by
  rw [after_succ cfg market strategy state candles hk] at h
  obtain ⟨⟨rate, r⟩, hbefore, h⟩ := bind_ok.mp h
  cases hbar : bar market rate strategy k candle r with
  | error error => simp [hbar, Except.map] at h
  | ok found =>
    simp only [hbar, Except.map, Except.ok.injEq, Prod.mk.injEq] at h
    obtain ⟨rfl, rfl⟩ := h
    exact ⟨r, hbefore, hbar⟩

end QuantForge.Backtest
