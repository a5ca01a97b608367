import QuantForge.Engine.Backtest
import QuantForge.Framework.Reader

namespace QuantForge.Backtest

open DecimalMath

theorem checked_ok {value : Option Decimal} {what : String} {d : Decimal} :
    checked value what = .ok d ↔ value = some d := by
  cases value <;> simp [checked]

variable [DecimalMath]

/-- What the exit leaves: nothing held, and one trade for the open one. -/
structure Sold (market : MarketId) (price : Decimal) (timestampMs : Int64) (a b : Account) :
    Prop where
  held : 0 < a.qty.value
  empty : b.qty = .zero
  closed : ∀ trade, a.openTrade = some trade → ∃ pnl : Decimal,
    pnl.value = b.cash.value - trade.cashBefore.value ∧
      b.trades = a.trades ++ [trade.closed market.symbol price timestampMs pnl]

/-- What the entry leaves: the whole position in one open trade. -/
structure Bought (price : Decimal) (timestampMs : Int64) (a b : Account) : Prop where
  flat : a.qty.value ≤ 0
  nonneg : 0 ≤ b.qty.value
  opened : b.openTrade = some ⟨timestampMs, price, b.qty, a.cash⟩
  trades : b.trades = a.trades
  nothing : b.qty.value = 0 → b.cash.value = a.cash.value

theorem executeFlat_ok [ExactMath] {market : MarketId} {price feeRate : Decimal} {t : Int64}
    {a b : Account} (h : executeFlat market price t feeRate a = .ok b) :
    (a.qty.value ≤ 0 ∧ b = a) ∨ Sold market price t a b := by
  unfold executeFlat at h
  by_cases hqty : a.qty.le .zero = true
  · rw [if_pos hqty] at h
    rw [Decimal.le_iff, Decimal.zero_value] at hqty
    exact .inl ⟨hqty, (Except.ok.inj h).symm⟩
  · rw [if_neg hqty] at h
    rw [Decimal.le_iff, Decimal.zero_value, not_le] at hqty
    simp only [bind_ok, checked_ok] at h
    obtain ⟨notional, -, fee, -, cashAfter, -, h⟩ := h
    right
    cases hopen : a.openTrade with
    | none =>
      rw [hopen] at h
      have hb := Except.ok.inj h
      subst hb
      exact ⟨hqty, rfl, fun trade htrade => by simp [hopen] at htrade⟩
    | some trade =>
      simp only [hopen, bind_ok, checked_ok] at h
      obtain ⟨pnl, hpnl, h⟩ := h
      have hb := Except.ok.inj h
      subst hb
      refine ⟨hqty, rfl, fun found hfound => ⟨pnl, ?_, ?_⟩⟩
      · have same : trade = found := by rwa [hopen, Option.some.injEq] at hfound
        rw [← same]
        exact ExactMath.sub_value hpnl
      · have same : trade = found := by rwa [hopen, Option.some.injEq] at hfound
        rw [← same]

theorem executeLong_ok [ExactMath] {price feeRate : Decimal} {t : Int64} {a b : Account}
    (h : executeLong price t feeRate a = .ok b) : b = a ∨ Bought price t a b := by
  unfold executeLong at h
  by_cases hskip : (Decimal.lt .zero a.qty || a.cash.le .zero) = true
  · rw [if_pos hskip] at h
    exact .inl (Except.ok.inj h).symm
  · rw [if_neg hskip] at h
    simp only [Bool.or_eq_true, Decimal.lt_iff, Decimal.le_iff, Decimal.zero_value, not_or,
      not_lt, not_le] at hskip
    simp only [bind_ok, checked_ok] at h
    obtain ⟨denominator, -, h⟩ := h
    by_cases hden : denominator.le .zero = true
    · rw [if_pos hden] at h
      exact .inl (Except.ok.inj h).symm
    · rw [if_neg hden] at h
      rw [Decimal.le_iff, Decimal.zero_value, not_le] at hden
      simp only [bind_ok, checked_ok, Option.bind_eq_some_iff] at h
      obtain ⟨buyQty, hbuy, notional, hnotional, fee, hfee, cashAfter, ⟨rest, hrest, hcash⟩, h⟩ := h
      have hb := Except.ok.inj h
      subst hb
      right
      refine ⟨hskip.1, ExactMath.div_nonneg hbuy hskip.2.le hden, rfl, rfl, fun hzero => ?_⟩
      have nonotional : notional.value = 0 := by
        rw [ExactMath.mul_value hnotional, show buyQty.value = 0 from hzero, zero_mul]
      have nofee : fee.value = 0 := by rw [ExactMath.mul_value hfee, nonotional, zero_mul]
      show cashAfter.value = a.cash.value
      rw [ExactMath.sub_value hcash, ExactMath.sub_value hrest, nonotional, nofee, sub_zero, sub_zero]

/-- A fill keeps the account, or carries out the pending decision at the
bar's open. -/
theorem fill_ok [ExactMath] {market : MarketId} {feeRate : Decimal} {index : Nat}
    {candle : Candle} {pending : Option TargetPosition} {a b : Account}
    (h : fill market feeRate index candle pending a = .ok b) :
    b = a ∨
      (pending = some .flat ∧ Sold market candle.open_ candle.openTimeMs a b) ∨
      (pending = some .longAllIn ∧ Bought candle.open_ candle.openTimeMs a b) := by
  unfold fill at h
  split_ifs at h with hindex
  · cases pending with
    | none => exact .inl (Except.ok.inj h).symm
    | some target =>
      cases target with
      | flat =>
        have exit_ := executeFlat_ok h
        rcases exit_ with kept | sold
        · exact .inl kept.2
        · exact .inr (.inl ⟨rfl, sold⟩)
      | longAllIn =>
        have entry := executeLong_ok h
        rcases entry with kept | bought
        · exact .inl kept
        · exact .inr (.inr ⟨rfl, bought⟩)
  · exact .inl (Except.ok.inj h).symm

theorem mark_value [ExactMath] {cash qty price equity : Decimal}
    (h : mark cash qty price = .ok equity) :
    equity.value = cash.value + qty.value * price.value := by
  simp only [mark, checked_ok, Option.bind_eq_some_iff] at h
  obtain ⟨value, hvalue, hequity⟩ := h
  rw [ExactMath.add_value hequity, ExactMath.mul_value hvalue]

end QuantForge.Backtest
