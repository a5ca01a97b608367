import QuantForge.Engine.Backtest.Telescopes

namespace QuantForge.Backtest

open DecimalMath

theorem take_of_take {xs ys : List Candle} {k i : Nat} (same : xs.take k = ys.take k) (hi : i ≤ k) :
    xs.take i = ys.take i := by
  have shorter := congrArg (List.take i) same
  rwa [List.take_take, List.take_take, min_eq_left hi] at shorter

theorem getElem?_of_take {xs ys : List Candle} {k i : Nat} (same : xs.take k = ys.take k) (hi : i < k) :
    xs[i]? = ys[i]? := by
  have shorter := congrArg (·[i]?) same
  simpa only [List.getElem?_take_of_lt hi] using shorter

section

variable [DecimalMath] {σ : Type} (cfg : BacktestConfig) (market : MarketId)
  (strategy : Strategy σ) (state : σ)

/-- The run gives `on_bar` this context and candle for bar `i`. -/
def Gives (candles : List Candle) (i : Nat) (ctx : StrategyContext) (candle : Candle) : Prop :=
  ∃ feeRate r s, candles[i]? = some candle ∧
    after cfg market strategy state candles i = .ok (feeRate, r) ∧
      presentBar market feeRate i candle r = .ok s ∧ s.ctx = ctx

/-- The fill at bar `i`'s open leaves this account, with every trade closed by
then. -/
def Fills (candles : List Candle) (i : Nat) (account : Account) : Prop :=
  ∃ candle feeRate r, candles[i]? = some candle ∧
    after cfg market strategy state candles i = .ok (feeRate, r) ∧
      fill market feeRate i candle r.pendingTarget r.account = .ok account

/-- What two candle lists have in common up to bar `k`'s open: what the
callbacks are given, and the trades closed by then, with which either result
begins. -/
structure SeenAlike (xs ys : List Candle) (k : Nat) : Prop where
  started : starting cfg market xs = starting cfg market ys
  given : ∀ i < k, ∀ ctx candle, Gives cfg market strategy state xs i ctx candle ↔
    Gives cfg market strategy state ys i ctx candle
  context : ∀ ctx candle ctx' candle', Gives cfg market strategy state xs k ctx candle →
    Gives cfg market strategy state ys k ctx' candle' → ctx = ctx'
  filled : ∀ account, Fills cfg market strategy state xs k account ↔
    Fills cfg market strategy state ys k account
  results : ∀ account, Fills cfg market strategy state xs k account →
    (∀ result final, run cfg market xs strategy state = .ok (result, final) →
      account.trades <+: result.trades) ∧
    ∀ result final, run cfg market ys strategy state = .ok (result, final) →
      account.trades <+: result.trades

variable {cfg market strategy state} {xs ys : List Candle} {k : Nat}

theorem starting_agree (same : xs.take 1 = ys.take 1) :
    starting cfg market xs = starting cfg market ys := by
  cases xs with
  | nil =>
    cases ys with
    | nil => rfl
    | cons y ys => simp at same
  | cons x xs =>
    cases ys with
    | nil => simp at same
    | cons y ys =>
      have first : x = y := by simpa using same
      rw [first]
      rfl

/-- The callback before any bar reads the first open time alone. -/
theorem starting_times {x y : Candle} (hx : xs[0]? = some x) (hy : ys[0]? = some y)
    (time : x.openTimeMs = y.openTimeMs) : starting cfg market xs = starting cfg market ys := by
  cases xs with
  | nil => simp at hx
  | cons first xs =>
    cases ys with
    | nil => simp at hy
    | cons second ys =>
      have hfirst : first = x := by simpa using hx
      have hsecond : second = y := by simpa using hy
      simp only [starting, startContext, hfirst, hsecond, time]

theorem after_agree (start : starting cfg market xs = starting cfg market ys)
    (same : xs.take k = ys.take k) :
    after cfg market strategy state xs k = after cfg market strategy state ys k := by
  simp only [after, prepare, start, same]

/-- Before bar `k` the two runs stand alike. -/
theorem agree_upto {x y : Candle} (same : xs.take k = ys.take k) (hx : xs[k]? = some x)
    (hy : ys[k]? = some y) (time : x.openTimeMs = y.openTimeMs) :
    starting cfg market xs = starting cfg market ys ∧
      ∀ i ≤ k, after cfg market strategy state xs i = after cfg market strategy state ys i := by
  have start : starting cfg market xs = starting cfg market ys := by
    cases k with
    | zero => exact starting_times hx hy time
    | succ k => exact starting_agree (take_of_take same (by omega))
  exact ⟨start, fun i hi => after_agree start (take_of_take same hi)⟩

/-- The fill reads a candle's open price and open time alone. -/
theorem fill_agree {feeRate : Decimal} {x y : Candle} {pending : Option TargetPosition}
    {account : Account} (hopen : x.open_ = y.open_) (time : x.openTimeMs = y.openTimeMs) :
    fill market feeRate k x pending account = fill market feeRate k y pending account := by
  unfold fill
  rw [hopen, time]

theorem presentBar_ctx {feeRate : Decimal} {candle : Candle} {r s : Replay σ}
    (h : presentBar market feeRate k candle r = .ok s) :
    ∃ account, fill market feeRate k candle r.pendingTarget r.account = .ok account ∧
      s.ctx = { r.ctx with
        nowMs := candle.openTimeMs, cash := account.cash, positionQty := account.qty } := by
  simp only [presentBar, openBar, bind_ok] at h
  obtain ⟨opened, ⟨account, hfill, hopened⟩, ⟨peak, fall⟩, -, hs⟩ := h
  refine ⟨account, hfill, ?_⟩
  rw [← Except.ok.inj hs, ← Except.ok.inj hopened]

omit [DecimalMath] in
theorem trades_append {a b : Account} {t : ClosedTrade} (h : b.trades = a.trades ++ [t]) :
    a.trades <+: b.trades := ⟨[t], h.symm⟩

/-- No fill takes a closed trade back. -/
theorem executeTarget_trades {target : TargetPosition} {price feeRate : Decimal} {timeMs : Int64}
    {a b : Account} (h : executeTarget market target price timeMs feeRate a = .ok b) :
    a.trades <+: b.trades := by
  cases target with
  | flat =>
    simp only [executeTarget, executeFlat] at h
    split_ifs at h with hqty
    · rw [Except.ok.inj h]
    · simp only [bind_ok, checked_ok] at h
      obtain ⟨notional, -, fee, -, cashAfter, -, h⟩ := h
      cases hopen : a.openTrade with
      | none =>
        rw [hopen] at h
        rw [← Except.ok.inj h]
      | some trade =>
        simp only [hopen, bind_ok] at h
        obtain ⟨pnl, -, h⟩ := h
        apply trades_append (t := trade.closed market.symbol price timeMs pnl)
        rw [← Except.ok.inj h]
  | longAllIn =>
    simp only [executeTarget, executeLong] at h
    split_ifs at h with hskip
    · rw [Except.ok.inj h]
    · simp only [bind_ok] at h
      obtain ⟨denominator, -, h⟩ := h
      split_ifs at h with hden
      · rw [Except.ok.inj h]
      · simp only [bind_ok] at h
        obtain ⟨buyQty, -, notional, -, fee, -, cashAfter, -, h⟩ := h
        rw [← Except.ok.inj h]

theorem fill_trades {feeRate : Decimal} {index : Nat} {candle : Candle}
    {pending : Option TargetPosition} {a b : Account}
    (h : fill market feeRate index candle pending a = .ok b) : a.trades <+: b.trades := by
  unfold fill at h
  split_ifs at h with hindex
  · cases pending with
    | none => rw [Except.ok.inj h]
    | some target => exact executeTarget_trades h
  · rw [Except.ok.inj h]

theorem bars_trades {feeRate : Decimal} {index : Nat} {candles : List Candle} {r s : Replay σ}
    (h : bars market feeRate strategy index candles r = .ok s) :
    r.account.trades <+: s.account.trades := by
  induction candles generalizing index r with
  | nil => rw [Except.ok.inj h]
  | cons candle candles ih =>
    obtain ⟨next, hbar, hrest⟩ := bind_ok.mp h
    exact (fill_trades (bar_account hbar)).trans (ih hrest)

theorem closeOut_trades {feeRate : Decimal} {candles : List Candle} {a b : Account}
    (h : closeOut cfg market feeRate candles a = .ok b) : a.trades <+: b.trades := by
  unfold closeOut at h
  split_ifs at h with hopen
  · cases hlast : candles.getLast? with
    | none =>
      rw [hlast] at h
      rw [Except.ok.inj h]
    | some last =>
      rw [hlast] at h
      exact executeTarget_trades h
  · rw [Except.ok.inj h]

/-- The bars from the `k`-th on follow the ones before it. -/
theorem after_split {candles : List Candle} (hk : k ≤ candles.length) :
    after cfg market strategy state candles candles.length =
      (after cfg market strategy state candles k).bind fun (feeRate, r) =>
        (bars market feeRate strategy k (candles.drop k) r).map fun s => (feeRate, s) := by
  have hlength : (candles.take k).length = k := by rw [List.length_take]; omega
  unfold after
  cases prepare cfg market candles strategy state with
  | error error => rfl
  | ok ready =>
    obtain ⟨feeRate, r⟩ := ready
    have whole : bars market feeRate strategy 0 (candles.take k ++ candles.drop k) r = _ :=
      bars_append
    rw [List.take_append_drop, hlength, Nat.zero_add] at whole
    simp only [bind, Except.bind, List.take_length, whole]
    cases bars market feeRate strategy 0 (candles.take k) r with
    | error error => rfl
    | ok s =>
      simp only [Except.map]

/-- The trades closed by bar `k`'s open stand first in the result. -/
theorem fills_result {candles : List Candle} {account : Account} {result : BacktestResult}
    {final : σ} (hfills : Fills cfg market strategy state candles k account)
    (hrun : run cfg market candles strategy state = .ok (result, final)) :
    account.trades <+: result.trades := by
  obtain ⟨candle, feeRate, r, hcandle, hafter, hfill⟩ := hfills
  obtain ⟨inside, hget⟩ := List.getElem?_eq_some_iff.mp hcandle
  rw [run_eq, after_split inside.le, hafter] at hrun
  simp only [Except.bind, List.drop_eq_getElem_cons inside, hget, bars, bind] at hrun
  cases hbar : bar market feeRate strategy k candle r with
  | error error => simp [hbar, Except.map] at hrun
  | ok next =>
    cases hbars : bars market feeRate strategy (k + 1) (candles.drop (k + 1)) next with
    | error error => simp [hbar, hbars, Except.map] at hrun
    | ok last =>
      simp only [hbar, hbars, Except.map] at hrun
      obtain ⟨closed, hclose, hrun⟩ := bind_ok.mp hrun
      obtain ⟨finished, -, hrun⟩ := bind_ok.mp hrun
      obtain ⟨reported, hreport, hrun⟩ := bind_ok.mp hrun
      have here : account = next.account := Except.ok.inj (hfill.symm.trans (bar_account hbar))
      rw [← (Prod.mk.inj (Except.ok.inj hrun)).1, report_trades hreport, here]
      exact (bars_trades hbars).trans (closeOut_trades hclose)

/-- A backtest has no lookahead: on candle lists that agree before bar `k` and
on its open, the strategy sees the same up to there. -/
theorem no_lookahead {x y : Candle} (same : xs.take k = ys.take k) (hx : xs[k]? = some x)
    (hy : ys[k]? = some y) (hopen : x.open_ = y.open_) (time : x.openTimeMs = y.openTimeMs) :
    SeenAlike cfg market strategy state xs ys k := by
  have agree : starting cfg market xs = starting cfg market ys ∧ ∀ i ≤ k,
      after cfg market strategy state xs i = after cfg market strategy state ys i :=
    agree_upto same hx hy time
  have filled : ∀ account, Fills cfg market strategy state xs k account ↔
      Fills cfg market strategy state ys k account := by
    intro account
    simp only [Fills, hx, hy, agree.2 k le_rfl, Option.some.injEq, exists_and_left, exists_eq_left',
      fill_agree hopen time]
  refine ⟨agree.1, fun i hi ctx candle => ?_, fun ctx candle ctx' candle' gx gy => ?_, filled,
    fun account hfills => ⟨fun result final hrun => fills_result hfills hrun,
      fun result final hrun => fills_result ((filled account).mp hfills) hrun⟩⟩
  · simp only [Gives, getElem?_of_take same hi, agree.2 i hi.le]
  · obtain ⟨feeRate, r, s, hcandle, hafter, hpresent, rfl⟩ := gx
    obtain ⟨feeRate', r', s', hcandle', hafter', hpresent', rfl⟩ := gy
    rw [hx, Option.some.injEq] at hcandle
    rw [hy, Option.some.injEq] at hcandle'
    rw [← agree.2 k le_rfl, hafter, Except.ok.injEq, Prod.mk.injEq] at hafter'
    obtain ⟨account, hfill, hctx⟩ := presentBar_ctx hpresent
    obtain ⟨account', hfill', hctx'⟩ := presentBar_ctx hpresent'
    rw [← hcandle', ← hafter'.1, ← hafter'.2, ← fill_agree hopen time, hcandle, hfill,
      Except.ok.injEq] at hfill'
    rw [hctx, hctx', ← hcandle, ← hcandle', ← hafter'.2, hfill', time]

end

attribute [local instance] DecimalMath.exact_

/-- The sample's bars with another last bar and one more. -/
def otherBars : List Candle :=
  sampleBars.take 3 ++ [sampleBar 3 (.ofUInt32 160) (.ofUInt32 40), sampleBar 4 (.ofUInt32 50) (.ofUInt32 60)]

theorem sample_no_lookahead :
    SeenAlike sampleConfig sampleMarket sampleStrategy 0 sampleBars otherBars 3 :=
  no_lookahead (x := sampleBar 3 (.ofNat 160) (.ofNat 100))
    (y := sampleBar 3 (.ofNat 160) (.ofNat 40)) (by decide) rfl rfl rfl rfl

end QuantForge.Backtest
