import QuantForge.Engine.Backtest.Drawdown
import QuantForge.Engine.Backtest.Lookahead
import QuantForge.Model.DecimalRounding

namespace QuantForge.Backtest

open DecimalMath Rounding Decimal

/-- What the roundings of an entry come to, at most: those of the price with its fee are
paid for every unit bought, and that of the quantity at the price with its fee. -/
def entryResidue (feeRate price cash : ℚ) : ℚ :=
  let factor := format.rounded (1 + feeRate)
  let denominator := format.rounded (price * factor)
  let qty := format.rounded (cash / denominator)
  let notional := format.rounded (qty * price)
  let fee := format.rounded (notional * feeRate)
  let rest := format.rounded (cash - notional)
  format.error (cash / denominator) * denominator +
    qty * (format.error (price * factor) + price * format.error (1 + feeRate)) +
    format.error (qty * price) * (1 + feeRate) + format.error (notional * feeRate) +
    format.error (cash - notional) + format.error (rest - fee)

/-- What the roundings of an exit's cash come to. -/
def exitResidue (feeRate price cash qty : ℚ) : ℚ :=
  let notional := format.rounded (qty * price)
  let fee := format.rounded (notional * feeRate)
  let sum := format.rounded (cash + notional)
  format.error (cash + notional) + format.error (sum - fee)

/-- What an exit's fee takes beyond what the exit yields, where it is more than the whole. -/
def exitShortfall (feeRate price qty : ℚ) : ℚ :=
  let notional := format.rounded (qty * price)
  let fee := format.rounded (notional * feeRate)
  if feeRate ≤ 1 then 0 else max 0 (fee - notional)

/-- A cash spent over a price with its fee, with every amount off by at most its error: no
more is missing than the errors come to. -/
theorem spent_le {cash price rate factor denominator qty notional fee e₁ e₂ e₃ e₄ e₅ : ℚ}
    (hprice : 0 ≤ price) (hrate : 0 ≤ rate) (hqty : 0 ≤ qty) (hdenominator : 0 < denominator)
    (hfactor : 1 + rate - e₁ ≤ factor) (hden : price * factor - e₂ ≤ denominator)
    (hbuy : qty ≤ cash / denominator + e₃) (hnotional : notional ≤ qty * price + e₄)
    (hfee : fee ≤ notional * rate + e₅) :
    notional + fee ≤
      cash + (e₃ * denominator + qty * (e₂ + price * e₁) + e₄ * (1 + rate) + e₅) := by
  have hspent : notional * (1 + rate) ≤ (qty * price + e₄) * (1 + rate) :=
    mul_le_mul_of_nonneg_right hnotional (by linarith)
  have hpaid : qty * denominator ≤ cash + e₃ * denominator := by
    have := mul_le_mul_of_nonneg_right hbuy hdenominator.le
    rwa [add_mul, div_mul_cancel₀ _ hdenominator.ne'] at this
  have hunit : price * (1 + rate) ≤ denominator + (e₂ + price * e₁) := by
    have := mul_le_mul_of_nonneg_left hfactor hprice
    linarith
  have hunits := mul_le_mul_of_nonneg_left hunit hqty
  calc
    notional + fee ≤ notional * (1 + rate) + e₅ := by linarith
    _ ≤ qty * (price * (1 + rate)) + e₄ * (1 + rate) + e₅ := by linarith
    _ ≤ qty * denominator + qty * (e₂ + price * e₁) + e₄ * (1 + rate) + e₅ := by linarith
    _ ≤ _ := by linarith

theorem exitResidue_nonneg (feeRate price cash qty : ℚ) :
    0 ≤ exitResidue feeRate price cash qty :=
  add_nonneg (Format.error_nonneg _) (Format.error_nonneg _)

theorem exitShortfall_nonneg (feeRate price qty : ℚ) : 0 ≤ exitShortfall feeRate price qty := by
  rw [exitShortfall]
  split_ifs
  · exact le_rfl
  · exact le_max_left _ _

section

variable [DecimalMath] [RoundedMath] {market : MarketId} {price feeRate : Decimal} {t : Int64}
  {a b : Account}

/-- A fee of at most the whole is no more than what it is taken of. -/
theorem fee_le {notional fee : Decimal} (h : checkedMul notional feeRate = some fee)
    (hnotional : 0 ≤ notional.value) (hrate : feeRate.value ≤ 1) : fee.value ≤ notional.value := by
  apply (RoundedMath.mul_rounds _ _).ge_of_ge h
  exact mul_le_of_le_one_right hnotional hrate

/-- An exit costs no more than its fee takes beyond its yield, up to the roundings of its
cash, and with a fee of at most the whole it leaves no debt that was not there. -/
theorem executeFlat_solvent (h : executeFlat market price t feeRate a = .ok b)
    (hprice : 0 < price.value) (hqty : 0 < a.qty.value) :
    b.qty.value = 0 ∧ (feeRate.value ≤ 1 → 0 ≤ a.cash.value → 0 ≤ b.cash.value) ∧
      a.cash.value - exitShortfall feeRate.value price.value a.qty.value -
          exitResidue feeRate.value price.value a.cash.value a.qty.value ≤ b.cash.value := by
  have hheld : ¬ a.qty.le .zero = true := by
    rw [le_iff, zero_value]
    exact not_le.mpr hqty
  rw [executeFlat, if_neg hheld] at h
  simp only [bind_ok, checked_ok, Option.bind_eq_some_iff] at h
  obtain ⟨notional, hnotional, fee, hfee, cashAfter, ⟨sum, hsum, hcash⟩, h⟩ := h
  have hb : b.qty = .zero ∧ b.cash = cashAfter := by
    cases hopen : a.openTrade with
    | none =>
      rw [hopen] at h
      rw [← Except.ok.inj h]
      exact ⟨rfl, rfl⟩
    | some trade =>
      simp only [hopen, bind_ok] at h
      obtain ⟨pnl, -, h⟩ := h
      rw [← Except.ok.inj h]
      exact ⟨rfl, rfl⟩
  have hnotionalValue := (RoundedMath.mul_rounds _ _).value_eq hnotional
  have hfeeValue := (RoundedMath.mul_rounds _ _).value_eq hfee
  have hsumValue := (RoundedMath.add_rounds _ _).value_eq hsum
  have hcashValue := (RoundedMath.sub_rounds _ _).value_eq hcash
  have hpositive : 0 ≤ notional.value := by
    rw [hnotionalValue]
    exact Format.rounded_nonneg (mul_nonneg hqty.le hprice.le)
  rw [hb.1, hb.2]
  refine ⟨zero_value, ?_, ?_⟩
  · intro hwhole hsolvent
    have hless : fee.value ≤ notional.value := fee_le hfee hpositive hwhole
    have hcovers : notional.value ≤ sum.value :=
      (RoundedMath.add_rounds _ _).le_of_le hsum (by linarith)
    rw [hcashValue]
    exact Format.rounded_nonneg (by linarith)
  · have hlow := Format.sub_le_rounded (F := format) (a.cash.value + notional.value)
    have hlast := Format.sub_le_rounded (F := format) (sum.value - fee.value)
    rw [← hsumValue] at hlow
    rw [← hcashValue] at hlast
    simp only [exitShortfall, exitResidue, ← hnotionalValue, ← hfeeValue, ← hsumValue]
    split_ifs with hwhole
    · have hless : fee.value ≤ notional.value := fee_le hfee hpositive hwhole
      linarith
    · have hextra : fee.value - notional.value ≤ max 0 (fee.value - notional.value) :=
        le_max_right _ _
      linarith

/-- An entry's price with its fee is not below the price. -/
theorem entry_denominator {factor denominator : Decimal}
    (hfactor : checkedAdd (.ofNat 1) feeRate = some factor)
    (hdenominator : checkedMul price factor = some denominator) (hprice : 0 < price.value)
    (hrate : 0 ≤ feeRate.value) : price.value ≤ denominator.value := by
  have hone : (ofNat 1).value = 1 := by
    rw [ofNat_value]
    rfl
  have hmore : (ofNat 1).value ≤ factor.value := by
    apply (RoundedMath.add_rounds _ _).le_of_le hfactor
    linarith
  apply (RoundedMath.mul_rounds _ _).le_of_le hdenominator
  rw [hone] at hmore
  exact le_mul_of_one_le_right hprice.le hmore

/-- An entry spends no more than its cash, up to its roundings. -/
theorem executeLong_solvent (h : executeLong price t feeRate a = .ok b)
    (hprice : 0 < price.value) (hrate : 0 ≤ feeRate.value) (hflat : a.qty.value ≤ 0)
    (hcash : 0 < a.cash.value) :
    0 ≤ b.qty.value ∧ 0 ≤ entryResidue feeRate.value price.value a.cash.value ∧
      -entryResidue feeRate.value price.value a.cash.value ≤ b.cash.value := by
  have henters : ¬ (Decimal.lt .zero a.qty || a.cash.le .zero) = true := by
    rw [Bool.or_eq_true, lt_iff, le_iff, zero_value]
    exact not_or.mpr ⟨not_lt.mpr hflat, not_le.mpr hcash⟩
  rw [executeLong, if_neg henters] at h
  simp only [bind_ok, checked_ok, Option.bind_eq_some_iff] at h
  obtain ⟨denominator, ⟨factor, hfactor, hdenominator⟩, h⟩ := h
  have hdenPos := hprice.trans_le (entry_denominator hfactor hdenominator hprice hrate)
  have hpays : ¬ denominator.le .zero = true := by
    rw [le_iff, zero_value]
    exact not_le.mpr hdenPos
  rw [if_neg hpays] at h
  simp only [bind_ok, checked_ok, Option.bind_eq_some_iff] at h
  obtain ⟨buyQty, hbuy, notional, hnotional, fee, hfee, cashAfter, ⟨rest, hrest, hafter⟩, h⟩ := h
  rw [← Except.ok.inj h]
  have hone : (ofNat 1).value = 1 := by
    rw [ofNat_value]
    rfl
  have hfactorValue := (RoundedMath.add_rounds _ _).value_eq hfactor
  rw [hone] at hfactorValue
  have hdenValue := (RoundedMath.mul_rounds _ _).value_eq hdenominator
  have hbuyValue := (RoundedMath.div_rounds hdenPos.ne').value_eq hbuy
  have hnotionalValue := (RoundedMath.mul_rounds _ _).value_eq hnotional
  have hfeeValue := (RoundedMath.mul_rounds _ _).value_eq hfee
  have hrestValue := (RoundedMath.sub_rounds _ _).value_eq hrest
  have hafterValue := (RoundedMath.sub_rounds _ _).value_eq hafter
  have hqty : 0 ≤ buyQty.value := by
    rw [hbuyValue]
    exact Format.rounded_nonneg (div_nonneg hcash.le hdenPos.le)
  have hspent := spent_le hprice.le hrate hqty hdenPos
    (hfactorValue ▸ Format.sub_le_rounded _) (hdenValue ▸ Format.sub_le_rounded _)
    (hbuyValue ▸ Format.rounded_le_add _) (hnotionalValue ▸ Format.rounded_le_add _)
    (hfeeValue ▸ Format.rounded_le_add _)
  refine ⟨hqty, ?_, ?_⟩
  · simp only [entryResidue, ← hfactorValue, ← hdenValue, ← hbuyValue, ← hnotionalValue,
      ← hfeeValue, ← hrestValue]
    have herror (q : ℚ) : 0 ≤ format.error q := Format.error_nonneg q
    have := herror (a.cash.value / denominator.value)
    have := herror (price.value * factor.value)
    have := herror (1 + feeRate.value)
    have := herror (buyQty.value * price.value)
    have := herror (notional.value * feeRate.value)
    have := herror (a.cash.value - notional.value)
    have := herror (rest.value - fee.value)
    positivity
  · have hlow := Format.sub_le_rounded (F := format) (a.cash.value - notional.value)
    have hlast := Format.sub_le_rounded (F := format) (rest.value - fee.value)
    rw [← hrestValue] at hlow
    rw [← hafterValue] at hlast
    simp only [entryResidue, ← hfactorValue, ← hdenValue, ← hbuyValue, ← hnotionalValue,
      ← hfeeValue, ← hrestValue]
    linarith

end

/-- What a fill makes of an allowance: an entry begins a new one with its roundings, and an
exit ends it, unless its fee is more than the whole or it leaves from a debt; then it adds
what its fee takes beyond its yield, and its own roundings. -/
def fillAllowance (feeRate price : Decimal) (target : TargetPosition) (a : Account)
    (allowance : ℚ) : ℚ :=
  match target with
  | .flat =>
    if 0 < a.qty.value then
      if feeRate.value ≤ 1 ∧ 0 ≤ a.cash.value then 0
      else (if 0 ≤ a.cash.value then 0 else allowance) +
        exitShortfall feeRate.value price.value a.qty.value +
        exitResidue feeRate.value price.value a.cash.value a.qty.value
    else allowance
  | .longAllIn =>
    if a.qty.value ≤ 0 ∧ 0 < a.cash.value then
      entryResidue feeRate.value price.value a.cash.value
    else allowance

/-- An account without a debt beyond an allowance, and never short. -/
structure Solvent (cash qty : Decimal) (allowance : ℚ) : Prop where
  allowed : 0 ≤ allowance
  qty_nonneg : 0 ≤ qty.value
  cash_le : -allowance ≤ cash.value

section

variable [DecimalMath] [RoundedMath] {market : MarketId} {price feeRate : Decimal} {t : Int64}
  {a b : Account} {allowance : ℚ}

/-- A fill at a positive price keeps an account solvent. -/
theorem executeTarget_solvent {target : TargetPosition}
    (h : executeTarget market target price t feeRate a = .ok b) (hprice : 0 < price.value)
    (hrate : 0 ≤ feeRate.value) (hsolvent : Solvent a.cash a.qty allowance) :
    Solvent b.cash b.qty (fillAllowance feeRate price target a allowance) := by
  obtain ⟨hallowed, hqty, hcash⟩ := hsolvent
  cases target with
  | flat =>
    rw [executeTarget] at h
    by_cases hheld : 0 < a.qty.value
    · obtain ⟨hempty, hkept, hleft⟩ := executeFlat_solvent h hprice hheld
      have hresidue := exitResidue_nonneg feeRate.value price.value a.cash.value a.qty.value
      have hshortfall := exitShortfall_nonneg feeRate.value price.value a.qty.value
      rw [fillAllowance, if_pos hheld]
      by_cases hfree : feeRate.value ≤ 1 ∧ 0 ≤ a.cash.value
      · rw [if_pos hfree]
        exact ⟨le_rfl, hempty.ge, by linarith [hkept hfree.1 hfree.2]⟩
      · rw [if_neg hfree]
        split_ifs with hcredit
        · exact ⟨by linarith, hempty.ge, by linarith⟩
        · exact ⟨by linarith, hempty.ge, by linarith⟩
    · have hskip : a.qty.le .zero = true := by
        rw [le_iff, zero_value]
        exact not_lt.mp hheld
      rw [executeFlat, if_pos hskip] at h
      rw [← Except.ok.inj h, fillAllowance, if_neg hheld]
      exact ⟨hallowed, hqty, hcash⟩
  | longAllIn =>
    rw [executeTarget] at h
    by_cases henters : a.qty.value ≤ 0 ∧ 0 < a.cash.value
    · obtain ⟨hbought, hresidue, hleft⟩ := executeLong_solvent h hprice hrate henters.1 henters.2
      rw [fillAllowance, if_pos henters]
      exact ⟨hresidue, hbought, hleft⟩
    · have hskip : (Decimal.lt .zero a.qty || a.cash.le .zero) = true := by
        rw [Bool.or_eq_true, lt_iff, le_iff, zero_value]
        by_contra hnot
        rw [not_or, not_lt, not_le] at hnot
        exact henters hnot
      rw [executeLong, if_pos hskip] at h
      rw [← Except.ok.inj h, fillAllowance, if_neg henters]
      exact ⟨hallowed, hqty, hcash⟩

end

section

variable [DecimalMath] {σ : Type} (cfg : BacktestConfig) (market : MarketId)
  (strategy : Strategy σ) (state : σ) (candles : List Candle)

/-- What the first `k` fills allow for: the roundings of the last entry, until an exit ends
them, and what exits cost at a fee of more than the whole. -/
def allowance : Nat → ℚ
  | 0 => 0
  | k + 1 =>
    match candles[k]?, after cfg market strategy state candles k with
    | some candle, .ok (feeRate, r) =>
      match (if 0 < k then r.pendingTarget else none) with
      | some target => fillAllowance feeRate candle.open_ target r.account (allowance k)
      | none => allowance k
    | _, _ => allowance k

/-- The allowance with the close-out's fill. -/
def closeOutAllowance (feeRate : Decimal) (a : Account) : ℚ :=
  match candles.getLast? with
  | some last =>
    if cfg.closeOutAtEnd && Decimal.lt .zero a.qty then
      fillAllowance feeRate last.close .flat a
        (allowance cfg market strategy state candles candles.length)
    else allowance cfg market strategy state candles candles.length
  | none => allowance cfg market strategy state candles candles.length

end

section

variable [DecimalMath] [RoundedMath] {σ : Type} {cfg : BacktestConfig} {market : MarketId}
  {strategy : Strategy σ} {state : σ} {candles : List Candle} {feeRate : Decimal} {r : Replay σ}

/-- A fill at bar `k`'s open keeps the account within its allowance. -/
theorem fill_solvent {k : Nat} {candle : Candle} {account : Account}
    (hcandle : candles[k]? = some candle)
    (hafter : after cfg market strategy state candles k = .ok (feeRate, r))
    (hfill : fill market feeRate k candle r.pendingTarget r.account = .ok account)
    (hprice : 0 < candle.open_.value) (hrate : 0 ≤ feeRate.value)
    (hsolvent : Solvent r.account.cash r.account.qty
      (allowance cfg market strategy state candles k)) :
    Solvent account.cash account.qty (allowance cfg market strategy state candles (k + 1)) := by
  simp only [allowance, hcandle, hafter]
  unfold fill at hfill
  by_cases hindex : 0 < k
  · rw [if_pos hindex] at hfill ⊢
    cases hpending : r.pendingTarget with
    | none =>
      rw [hpending] at hfill
      rw [← Except.ok.inj hfill]
      exact hsolvent
    | some target =>
      rw [hpending] at hfill
      exact executeTarget_solvent hfill hprice hrate hsolvent
  · rw [if_neg hindex] at hfill ⊢
    rw [← Except.ok.inj hfill]
    exact hsolvent

theorem starting_rate {ctx : StrategyContext}
    (h : starting cfg market candles = .ok (feeRate, ctx)) :
    0 ≤ feeRate.value ∧ (cfg.feeBps.value ≤ 10000 → feeRate.value ≤ 1) ∧ 0 < ctx.cash.value ∧
      ctx.positionQty.value = 0 ∧ ctx.cash = cfg.initialCash := by
  unfold starting at h
  cases candles with
  | nil => cases h
  | cons first rest =>
    simp only at h
    split_ifs at h with hcash hbps
    obtain ⟨rate, hdiv, h⟩ := bind_ok.mp h
    cases h
    rw [checked_ok] at hdiv
    have hvalue : (ofNat 10000).value = 10000 := by
      rw [ofNat_value]
      rfl
    have hne : (ofNat 10000).value ≠ 0 := by
      rw [hvalue]
      norm_num
    have hdivides := RoundedMath.div_rounds (a := cfg.feeBps) hne
    rw [hvalue] at hdivides
    rw [lt_iff, zero_value, not_lt] at hbps
    rw [le_iff, zero_value, not_le] at hcash
    refine ⟨?_, ?_, hcash, zero_value, rfl⟩
    · rw [hdivides.value_eq hdiv]
      exact Format.rounded_nonneg (div_nonneg hbps (by norm_num))
    · intro hfee
      have hone : (ofNat 1).value = 1 := by
        rw [ofNat_value]
        rfl
      rw [← hone]
      apply hdivides.ge_of_ge hdiv
      rw [hone, div_le_one (by norm_num)]
      exact hfee

/-- Before every bar the account is solvent. -/
theorem after_solvent (hprices : ∀ candle ∈ candles, 0 < candle.open_.value) {k : Nat}
    (hk : k ≤ candles.length)
    (hafter : after cfg market strategy state candles k = .ok (feeRate, r)) :
    0 ≤ feeRate.value ∧
      Solvent r.account.cash r.account.qty (allowance cfg market strategy state candles k) := by
  induction k generalizing feeRate r with
  | zero =>
    have hprepare := after_zero hafter
    have haccount := (prepare_account hprepare).1
    simp only [prepare, bind_ok] at hprepare
    obtain ⟨⟨rate, ctx⟩, hstarting, started, -, hready⟩ := hprepare
    obtain ⟨hnonneg, -, hcash, -, hsame⟩ := starting_rate hstarting
    have hrate : rate = feeRate := (Prod.mk.inj (Except.ok.inj hready)).1
    rw [hrate] at hnonneg
    rw [haccount, allowance]
    exact ⟨hnonneg, le_rfl, zero_value.ge, by rw [← hsame]; linarith⟩
  | succ k ih =>
    have hcandle : candles[k]? = some candles[k] := List.getElem?_eq_getElem (by omega)
    obtain ⟨s, hbefore, hbar⟩ := after_bar hcandle hafter
    obtain ⟨hrate, hsolvent⟩ := ih (by omega) hbefore
    have hprice := hprices _ (List.getElem_mem (by omega : k < candles.length))
    exact ⟨hrate, fill_solvent hcandle hbefore (bar_account hbar) hprice hrate hsolvent⟩

/-- At every accepted fee an account is never short and an entry spends no more than the cash
it has, up to the roundings of that entry, in every context and at the end: only an exit whose
fee is more than the whole leaves a debt, of what the fee takes beyond its yield. -/
theorem run_solvent
    (hprices : ∀ candle ∈ candles, 0 < candle.open_.value ∧ 0 < candle.close.value) :
    (∀ feeRate ctx, starting cfg market candles = .ok (feeRate, ctx) →
      Solvent ctx.cash ctx.positionQty 0) ∧
    (∀ i ctx candle, Gives cfg market strategy state candles i ctx candle →
      Solvent ctx.cash ctx.positionQty
        (allowance cfg market strategy state candles (i + 1))) ∧
    (∀ feeRate r account,
      after cfg market strategy state candles candles.length = .ok (feeRate, r) →
      closeOut cfg market feeRate candles r.account = .ok account →
      Solvent account.cash account.qty
        (closeOutAllowance cfg market strategy state candles feeRate r.account)) ∧
    (cfg.feeBps.value ≤ 10000 → ∀ feeRate ctx,
      starting cfg market candles = .ok (feeRate, ctx) →
      ∀ price qty, exitShortfall feeRate.value price qty = 0) := by
  have hopens : ∀ candle ∈ candles, 0 < candle.open_.value := fun c hc => (hprices c hc).1
  refine ⟨?_, ?_, ?_, ?_⟩
  · intro feeRate ctx hstarting
    obtain ⟨-, -, hcash, hqty, -⟩ := starting_rate hstarting
    exact ⟨le_rfl, hqty.ge, by linarith⟩
  · rintro i ctx candle ⟨feeRate, r, s, hcandle, hafter, hpresent, rfl⟩
    obtain ⟨account, hfill, hctx⟩ := presentBar_ctx hpresent
    have hinside := (List.getElem?_eq_some_iff.mp hcandle).1
    obtain ⟨hrate, hsolvent⟩ := after_solvent hopens hinside.le hafter
    rw [hctx]
    exact fill_solvent hcandle hafter hfill (hopens _ (List.mem_of_getElem? hcandle)) hrate
      hsolvent
  · intro feeRate r account hafter hclose
    obtain ⟨hrate, hsolvent⟩ := after_solvent hopens le_rfl hafter
    unfold closeOut at hclose
    unfold closeOutAllowance
    cases hlast : candles.getLast? with
    | none =>
      rw [hlast] at hclose
      have hkept : account = r.account := by
        split_ifs at hclose <;> exact (Except.ok.inj hclose).symm
      rw [hkept]
      exact hsolvent
    | some last =>
      rw [hlast] at hclose
      by_cases hopen : (cfg.closeOutAtEnd && Decimal.lt .zero r.account.qty) = true
      · rw [if_pos hopen] at hclose
        simp only [if_pos hopen]
        have hprice := (hprices last (List.mem_of_getLast? hlast)).2
        exact executeTarget_solvent hclose hprice hrate hsolvent
      · rw [if_neg hopen] at hclose
        simp only [if_neg hopen]
        rw [← Except.ok.inj hclose]
        exact hsolvent
  · intro hfee feeRate ctx hstarting price qty
    obtain ⟨-, hwhole, -⟩ := starting_rate hstarting
    rw [exitShortfall, if_pos (hwhole hfee)]

end

attribute [local instance] DecimalMath.rounding DecimalMath.rounding_roundedMath

theorem sample_solvent :
    (∀ feeRate ctx, starting sampleConfig sampleMarket sampleBars = .ok (feeRate, ctx) →
      Solvent ctx.cash ctx.positionQty 0) ∧
    (∀ i ctx candle, Gives sampleConfig sampleMarket sampleStrategy 0 sampleBars i ctx candle →
      Solvent ctx.cash ctx.positionQty
        (allowance sampleConfig sampleMarket sampleStrategy 0 sampleBars (i + 1))) ∧
    (∀ feeRate r account,
      after sampleConfig sampleMarket sampleStrategy 0 sampleBars sampleBars.length =
        .ok (feeRate, r) →
      closeOut sampleConfig sampleMarket feeRate sampleBars r.account = .ok account →
      Solvent account.cash account.qty (closeOutAllowance sampleConfig sampleMarket sampleStrategy
        0 sampleBars feeRate r.account)) ∧
    (sampleConfig.feeBps.value ≤ 10000 → ∀ feeRate ctx,
      starting sampleConfig sampleMarket sampleBars = .ok (feeRate, ctx) →
      ∀ price qty, exitShortfall feeRate.value price qty = 0) :=
  run_solvent (by decide +kernel)

/-- Bars that open and close at one price. -/
def levelBars (price : Decimal) : List Candle :=
  [sampleBar 0 price price, sampleBar 1 price price, sampleBar 2 price price,
    sampleBar 3 price price]

/-- What `on_bar` is told of the cash at bar `i`. -/
def cashTold (cfg : BacktestConfig) (candles : List Candle) (i : Nat) : Except EngineError ℚ := do
  let (feeRate, r) ← after cfg sampleMarket sampleStrategy 0 candles i
  match candles[i]? with
  | some candle => do
    let s ← presentBar sampleMarket feeRate i candle r
    pure s.ctx.cash.value
  | none => .error .noCandles

theorem cashTold_gives {cfg : BacktestConfig} {candles : List Candle} {i : Nat} {cash : ℚ}
    (h : cashTold cfg candles i = .ok cash) :
    ∃ ctx candle, Gives cfg sampleMarket sampleStrategy 0 candles i ctx candle ∧
      ctx.cash.value = cash := by
  unfold cashTold at h
  obtain ⟨⟨feeRate, r⟩, hafter, h⟩ := bind_ok.mp h
  cases hcandle : candles[i]? with
  | none =>
    rw [hcandle] at h
    cases h
  | some candle =>
    rw [hcandle] at h
    obtain ⟨s, hpresent, h⟩ := bind_ok.mp h
    exact ⟨s.ctx, candle, ⟨feeRate, r, s, hcandle, hafter, hpresent, rfl⟩, Except.ok.inj h⟩

/-- A fee of 200%. -/
def doubleFee : BacktestConfig := ⟨.ofNat 300, .ofNat 20000, true⟩

def noFee : BacktestConfig := ⟨.ofUInt32 2, .zero, true⟩

/-- A fee of 200% makes the exit at 100 cost 200, and 2 at a price of 3 buy
0.6666666666666666666666666667, which costs 2.0000000000000000000000000001. -/
theorem debts :
    (∃ ctx candle, Gives doubleFee sampleMarket sampleStrategy 0 (levelBars (.ofNat 100)) 3 ctx
      candle ∧ ctx.cash.value = -100) ∧
    ∃ ctx candle, Gives noFee sampleMarket sampleStrategy 0 (levelBars (.ofNat 3)) 1 ctx candle ∧
      ctx.cash.value = -(1 / 10 ^ 28) :=
  ⟨cashTold_gives (by decide +kernel), cashTold_gives (by decide +kernel)⟩

end QuantForge.Backtest
