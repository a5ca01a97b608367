import QuantForge.Engine.Backtest.Fills
import QuantForge.Engine.Backtest.Replay
import QuantForge.Framework.Chain

namespace QuantForge.Backtest

open DecimalMath

section

variable [DecimalMath] {σ : Type} (cfg : BacktestConfig) (market : MarketId)
  (strategy : Strategy σ) (state : σ) (candles : List Candle)

/-- Before every bar from `first` to `last` nothing is held, and the cash is
`cash`. -/
def Idle (first last : Nat) (cash : ℚ) : Prop :=
  ∀ i, first ≤ i → i ≤ last → ∃ feeRate r,
    after cfg market strategy state candles i = .ok (feeRate, r) ∧
      r.account.qty.value = 0 ∧ r.account.cash.value = cash

/-- Before every bar after `first`, up to `last`, `qty` is the whole
position. -/
def Holds (first last : Nat) (qty : Decimal) : Prop :=
  ∀ i, first < i → i ≤ last → ∃ feeRate r,
    after cfg market strategy state candles i = .ok (feeRate, r) ∧ r.account.qty = qty

/-- What the strategy answers on bar `i`, once the bar's fill has been shown to
it. -/
def Decides (target : TargetPosition) (i : Nat) : Prop :=
  ∃ bar feeRate r shown next, candles[i]? = some bar ∧
    after cfg market strategy state candles i = .ok (feeRate, r) ∧
      presentBar market feeRate i bar r = .ok shown ∧
        strategy.onBar shown.ctx bar shown.strategy = .ok (some target, next)

/-- Bar `i` opens at this price and time, and on the bar before it the strategy
decided for `target`. -/
def OpensOn (target : TargetPosition) (i : Nat) (price : Decimal) (timeMs : Int64) : Prop :=
  ∃ bar decided, candles[i]? = some bar ∧ i = decided + 1 ∧
    Decides cfg market strategy state candles target decided ∧
      price = bar.open_ ∧ timeMs = bar.openTimeMs

/-- The close-out after the last bar, at its close. -/
def ClosesOut (i : Nat) (price : Decimal) (timeMs : Int64) : Prop :=
  cfg.closeOutAtEnd = true ∧ i = candles.length ∧ ∃ last, candles.getLast? = some last ∧
    price = last.close ∧ timeMs = last.closeTimeMs

/-- One trade: in at bar `first`'s open, the whole position until the exit,
and a PnL that is the change in cash. -/
def RoundTrip (t : ClosedTrade) (first next : Nat) (before after_ : ℚ) : Prop :=
  ∃ last, next = last + 1 ∧ first < last ∧
    OpensOn cfg market strategy state candles .longAllIn first t.entryPrice t.entryTimeMs ∧
    0 < t.qty.value ∧ Holds cfg market strategy state candles first last t.qty ∧
    (OpensOn cfg market strategy state candles .flat last t.exitPrice t.exitTimeMs ∨
      ClosesOut cfg candles last t.exitPrice t.exitTimeMs) ∧
    t.grossQuotePnl.value = after_ - before

/-- The trades in bar order from the initial cash: between two of them
nothing is held, and the cash is what the one before left. -/
abbrev Trips : Nat → ℚ → List ClosedTrade → Prop :=
  Chain (Idle cfg market strategy state candles) (RoundTrip cfg market strategy state candles)
    cfg.initialCash.value

/-- An entry at bar `first` that no exit before bar `k` has closed. -/
structure Entry (k first : Nat) (cash : ℚ) (trade : OpenTrade) : Prop where
  before : first < k
  opens : OpensOn cfg market strategy state candles .longAllIn first trade.entryPrice
    trade.entryTimeMs
  positive : 0 < trade.qty.value
  holds : Holds cfg market strategy state candles first k trade.qty
  cashBefore : trade.cashBefore.value = cash

/-- What holds of the account before bar `k`. -/
inductive Books (k : Nat) (account : Account) : Prop
  | flat (ends : Nat) (cash : ℚ)
      (trips : Trips cfg market strategy state candles ends cash account.trades)
      (ended : ends ≤ k) (idle : Idle cfg market strategy state candles ends k cash)
  | long (ends first : Nat) (cash : ℚ) (trade : OpenTrade)
      (trips : Trips cfg market strategy state candles ends cash account.trades)
      (ended : ends ≤ first) (idle : Idle cfg market strategy state candles ends first cash)
      (entry : Entry cfg market strategy state candles k first cash trade)
      (openTrade : account.openTrade = some trade)

end

section

variable [DecimalMath] {σ : Type} {cfg : BacktestConfig} {market : MarketId}
  {strategy : Strategy σ} {state : σ} {candles : List Candle}

theorem idle_succ {first k : Nat} {cash : ℚ} {feeRate : Decimal} {r : Replay σ}
    (hidle : Idle cfg market strategy state candles first k cash)
    (hafter : after cfg market strategy state candles (k + 1) = .ok (feeRate, r))
    (hqty : r.account.qty.value = 0) (hcash : r.account.cash.value = cash) :
    Idle cfg market strategy state candles first (k + 1) cash := by
  intro i hfirst hlast
  by_cases hi : i ≤ k
  · exact hidle i hfirst hi
  · have here : i = k + 1 := by omega
    rw [here]
    exact ⟨feeRate, r, hafter, hqty, hcash⟩

theorem holds_succ {first k : Nat} {qty : Decimal} {feeRate : Decimal} {r : Replay σ}
    (hholds : Holds cfg market strategy state candles first k qty)
    (hafter : after cfg market strategy state candles (k + 1) = .ok (feeRate, r))
    (hqty : r.account.qty = qty) :
    Holds cfg market strategy state candles first (k + 1) qty := by
  intro i hfirst hlast
  by_cases hi : i ≤ k
  · exact hholds i hfirst hi
  · have here : i = k + 1 := by omega
    rw [here]
    exact ⟨feeRate, r, hafter, hqty⟩

/-- The account of a state is the one its bar's fill left. -/
theorem bar_account {feeRate : Decimal} {index : Nat} {candle : Candle} {r s : Replay σ}
    (h : bar market feeRate strategy index candle r = .ok s) :
    fill market feeRate index candle r.pendingTarget r.account = .ok s.account := by
  simp only [bar, presentBar, openBar, bind_ok] at h
  obtain ⟨presented, ⟨opened, ⟨account, hfill, hopened⟩, ⟨peak, fall⟩, -, hpresented⟩, ⟨_, _⟩, -,
    hs⟩ := h
  rw [← Except.ok.inj hs, ← Except.ok.inj hpresented, ← Except.ok.inj hopened]
  exact hfill

theorem prepare_account {feeRate : Decimal} {r : Replay σ}
    (h : prepare cfg market candles strategy state = .ok (feeRate, r)) :
    r.account = ⟨cfg.initialCash, .zero, none, []⟩ ∧ r.pendingTarget = none := by
  simp only [prepare, bind_ok] at h
  obtain ⟨_, -, started, -, h⟩ := h
  rw [← (Prod.mk.inj (Except.ok.inj h)).2]
  exact ⟨rfl, rfl⟩

/-- A bar leaves pending what the strategy answered on it. -/
theorem bar_decides {feeRate : Decimal} {index : Nat} {candle : Candle} {r s : Replay σ}
    (h : bar market feeRate strategy index candle r = .ok s) :
    ∃ shown next, presentBar market feeRate index candle r = .ok shown ∧
      strategy.onBar shown.ctx candle shown.strategy = .ok (s.pendingTarget, next) := by
  simp only [bar, bind_ok] at h
  obtain ⟨shown, hshown, ⟨pending, next⟩, hanswer, hs⟩ := h
  refine ⟨shown, next, hshown, ?_⟩
  rw [← Except.ok.inj hs]
  cases honBar : strategy.onBar shown.ctx candle shown.strategy with
  | error error => simp [honBar, callback] at hanswer
  | ok answer =>
    rw [honBar] at hanswer
    exact congrArg Except.ok (Except.ok.inj hanswer)

/-- A decision that waits for bar `k`'s open was made on the bar before. -/
theorem pending_decided {k : Nat} {target : TargetPosition} {feeRate : Decimal} {r : Replay σ}
    (hafter : after cfg market strategy state candles k = .ok (feeRate, r))
    (hk : k < candles.length) (hpending : r.pendingTarget = some target) :
    ∃ decided, k = decided + 1 ∧ Decides cfg market strategy state candles target decided := by
  cases k with
  | zero =>
    rw [(prepare_account (after_zero hafter)).2] at hpending
    cases hpending
  | succ k =>
    have hcandle : candles[k]? = some candles[k] := List.getElem?_eq_getElem (by omega)
    obtain ⟨before, hbefore, hbar⟩ := after_bar hcandle hafter
    obtain ⟨shown, next, hshown, hanswer⟩ := bar_decides hbar
    rw [hpending] at hanswer
    exact ⟨k, rfl, _, _, _, shown, next, hcandle, hbefore, hshown, hanswer⟩

theorem Idle.account {first k : Nat} {cash : ℚ} {feeRate : Decimal} {r : Replay σ}
    (hidle : Idle cfg market strategy state candles first k cash) (hfirst : first ≤ k)
    (hafter : after cfg market strategy state candles k = .ok (feeRate, r)) :
    r.account.qty.value = 0 ∧ r.account.cash.value = cash := by
  obtain ⟨_, found, hfound, hqty, hcash⟩ := hidle k hfirst le_rfl
  have same := Except.ok.inj (hafter.symm.trans hfound)
  rw [(Prod.mk.inj same).2]
  exact ⟨hqty, hcash⟩

theorem Entry.qty {k first : Nat} {cash : ℚ} {trade : OpenTrade} {feeRate : Decimal}
    {r : Replay σ} (hentry : Entry cfg market strategy state candles k first cash trade)
    (hafter : after cfg market strategy state candles k = .ok (feeRate, r)) :
    r.account.qty = trade.qty := by
  obtain ⟨_, found, hfound, hqty⟩ := hentry.holds k hentry.before le_rfl
  have same := Except.ok.inj (hafter.symm.trans hfound)
  rw [(Prod.mk.inj same).2]
  exact hqty

/-- A sale of the open trade closes it, and the books are flat from the next
step on. -/
theorem Entry.trip {k ends first : Nat} {cash : ℚ} {trade : OpenTrade} {price : Decimal}
    {timeMs : Int64} {a b : Account}
    (trips : Trips cfg market strategy state candles ends cash a.trades) (ended : ends ≤ first)
    (idle : Idle cfg market strategy state candles ends first cash)
    (entry : Entry cfg market strategy state candles k first cash trade)
    (openTrade : a.openTrade = some trade) (sold : Sold market price timeMs a b)
    (leaves : OpensOn cfg market strategy state candles .flat k price timeMs ∨
      ClosesOut cfg candles k price timeMs) :
    Trips cfg market strategy state candles (k + 1) b.cash.value b.trades := by
  obtain ⟨pnl, hpnl, htrades⟩ := sold.closed trade openTrade
  rw [htrades]
  apply Chain.snoc trips ended idle
  refine ⟨k, rfl, entry.before, entry.opens, entry.positive, entry.holds, leaves, ?_⟩
  rw [← entry.cashBefore]
  exact hpnl

/-- One bar keeps the books. -/
theorem books_bar [ExactMath] {k : Nat} {candle : Candle} {feeRate : Decimal} {r s : Replay σ}
    (hk : candles[k]? = some candle)
    (hafter : after cfg market strategy state candles k = .ok (feeRate, r))
    (hnext : after cfg market strategy state candles (k + 1) = .ok (feeRate, s))
    (hbar : bar market feeRate strategy k candle r = .ok s)
    (books : Books cfg market strategy state candles k r.account) :
    Books cfg market strategy state candles (k + 1) s.account := by
  have opensOn {target : TargetPosition} (hpending : r.pendingTarget = some target) :
      OpensOn cfg market strategy state candles target k candle.open_ candle.openTimeMs := by
    have hinside := (List.getElem?_eq_some_iff.mp hk).1
    obtain ⟨decided, hdecided, decides⟩ := pending_decided hafter hinside hpending
    exact ⟨candle, decided, hk, hdecided, decides, rfl, rfl⟩
  rcases books with ⟨ends, cash, trips, ended, idle⟩ |
    ⟨ends, first, cash, trade, trips, ended, idle, entry, openTrade⟩
  · have here := idle.account ended hafter
    rcases fill_ok (bar_account hbar) with kept | ⟨hpending, sold⟩ | ⟨hpending, bought⟩
    · rw [kept]
      have next := idle_succ idle hnext (kept ▸ here.1) (kept ▸ here.2)
      exact .flat ends cash trips (by omega) next
    · have held := sold.held
      rw [here.1] at held
      exact absurd held (lt_irrefl 0)
    · by_cases hzero : s.account.qty.value = 0
      · have next := idle_succ idle hnext hzero ((bought.nothing hzero).trans here.2)
        exact .flat ends cash (bought.trades ▸ trips) (by omega) next
      · have positive := lt_of_le_of_ne bought.nonneg (Ne.symm hzero)
        refine .long ends k cash _ (bought.trades ▸ trips) ended idle ?_ bought.opened
        refine ⟨by omega, opensOn hpending, positive, fun i hfirst hlast => ?_, here.2⟩
        have at_next : i = k + 1 := by omega
        rw [at_next]
        exact ⟨feeRate, s, hnext, rfl⟩
  · have here := entry.qty hafter
    rcases fill_ok (bar_account hbar) with kept | ⟨hpending, sold⟩ | ⟨hpending, bought⟩
    · rw [kept]
      have holds := holds_succ entry.holds hnext (kept ▸ here)
      have before := entry.before
      exact .long ends first cash trade trips ended idle
        ⟨by omega, entry.opens, entry.positive, holds, entry.cashBefore⟩ openTrade
    · refine .flat (k + 1) s.account.cash.value
        (Entry.trip trips ended idle entry openTrade sold (.inl (opensOn hpending))) le_rfl ?_
      intro i hfirst hlast
      have at_next : i = k + 1 := by omega
      rw [at_next]
      exact ⟨feeRate, s, hnext, by rw [sold.empty, Decimal.zero_value], rfl⟩
    · have flat := bought.flat
      rw [here] at flat
      exact absurd entry.positive (not_lt.mpr flat)

/-- The books hold before every bar. -/
theorem books_after [ExactMath] {k : Nat} {feeRate : Decimal} {r : Replay σ}
    (hk : k ≤ candles.length)
    (hafter : after cfg market strategy state candles k = .ok (feeRate, r)) :
    Books cfg market strategy state candles k r.account := by
  induction k generalizing feeRate r with
  | zero =>
    have account := (prepare_account (after_zero hafter)).1
    rw [account]
    refine .flat 0 cfg.initialCash.value .nil le_rfl fun i hfirst hlast => ?_
    have at_start : i = 0 := by omega
    rw [at_start]
    exact ⟨feeRate, r, hafter, by rw [account, Decimal.zero_value], by rw [account]⟩
  | succ k ih =>
    obtain ⟨candle, hcandle⟩ : ∃ candle, candles[k]? = some candle :=
      ⟨candles[k], List.getElem?_eq_getElem (by omega)⟩
    obtain ⟨before, hbefore, hbar⟩ := after_bar hcandle hafter
    exact books_bar hcandle hbefore hafter hbar (ih (by omega) hbefore)

/-- The close-out sells what is held, or changes nothing. -/
theorem closeOut_ok [ExactMath] {feeRate : Decimal} {a b : Account}
    (h : closeOut cfg market feeRate candles a = .ok b) :
    b = a ∨ ∃ price timeMs, ClosesOut cfg candles candles.length price timeMs ∧
      Sold market price timeMs a b := by
  unfold closeOut at h
  split_ifs at h with hopen
  · simp only [Bool.and_eq_true] at hopen
    cases hlast : candles.getLast? with
    | none =>
      rw [hlast] at h
      exact .inl (Except.ok.inj h).symm
    | some last =>
      rw [hlast] at h
      rcases executeFlat_ok h with kept | sold
      · exact .inl kept.2
      · exact .inr ⟨last.close, last.closeTimeMs, ⟨hopen.1, rfl, last, hlast, rfl, rfl⟩, sold⟩
  · exact .inl (Except.ok.inj h).symm

theorem report_trades {maxDrawdown : Decimal} {account : Account} {result : BacktestResult}
    (h : report cfg candles maxDrawdown account = .ok result) :
    result.trades = account.trades := by
  unfold report at h
  cases hlast : candles.getLast? with
  | none => simp [hlast] at h
  | some last =>
    simp only [hlast, bind_ok] at h
    obtain ⟨_, -, _, -, _, -, h⟩ := h
    rw [← Except.ok.inj h]

theorem report_ok [ExactMath] {maxDrawdown : Decimal} {account : Account}
    {result : BacktestResult} (h : report cfg candles maxDrawdown account = .ok result) :
    ∃ last, candles.getLast? = some last ∧
      result.finalEquity.value = account.cash.value + account.qty.value * last.close.value := by
  unfold report at h
  cases hlast : candles.getLast? with
  | none => simp [hlast] at h
  | some last =>
    simp only [hlast, bind_ok, checked_ok] at h
    obtain ⟨finalEquity, hequity, _, -, _, -, h⟩ := h
    rw [← Except.ok.inj h]
    exact ⟨last, rfl, mark_value hequity⟩

/-- What a run's trades and final equity come to: the trades are disjoint
round trips, each of the whole position, and the final equity is the initial
cash with every trade's PnL, and the change of a position still open. -/
structure Telescopes (cfg : BacktestConfig) (market : MarketId) (strategy : Strategy σ)
    (state : σ) (candles : List Candle) (result : BacktestResult) (ends : Nat) (cash : ℚ) :
    Prop where
  trips : Trips cfg market strategy state candles ends cash result.trades
  sum : cash = cfg.initialCash.value +
    (result.trades.map fun trade => trade.grossQuotePnl.value).sum
  equity :
    (Idle cfg market strategy state candles ends candles.length cash ∧
      result.finalEquity.value = cash) ∨
    (∃ first trade feeRate r last, ends ≤ first ∧
      Idle cfg market strategy state candles ends first cash ∧
      Entry cfg market strategy state candles candles.length first cash trade ∧
      after cfg market strategy state candles candles.length = .ok (feeRate, r) ∧
      candles.getLast? = some last ∧
      result.finalEquity.value = cash +
        (r.account.cash.value + r.account.qty.value * last.close.value - trade.cashBefore.value))

theorem trips_sum {ends : Nat} {cash : ℚ} {trades : List ClosedTrade}
    (trips : Trips cfg market strategy state candles ends cash trades) :
    cash = cfg.initialCash.value + (trades.map fun trade => trade.grossQuotePnl.value).sum := by
  apply trips.sum_gains
  intro t first next before after_ trip
  obtain ⟨last, -, -, -, -, -, -, hpnl⟩ := trip
  exact hpnl

/-- A run that answers leaves accounts that telescope. -/
theorem run_telescopes [ExactMath] {result : BacktestResult} {final : σ}
    (h : run cfg market candles strategy state = .ok (result, final)) :
    ∃ ends cash, Telescopes cfg market strategy state candles result ends cash := by
  rw [run_eq] at h
  obtain ⟨⟨feeRate, r⟩, hafter, h⟩ := bind_ok.mp h
  simp only [bind_ok] at h
  obtain ⟨account, hclose, finished, -, reported, hreport, h⟩ := h
  have same := (Prod.mk.inj (Except.ok.inj h)).1
  subst same
  have htrades := report_trades hreport
  obtain ⟨last, hlast, hequity⟩ := report_ok hreport
  rcases books_after le_rfl hafter with ⟨ends, cash, trips, ended, idle⟩ |
    ⟨ends, first, cash, trade, trips, ended, idle, entry, openTrade⟩
  · have here := idle.account ended hafter
    rcases closeOut_ok hclose with kept | ⟨price, timeMs, hcloses, sold⟩
    · rw [← kept, ← htrades] at trips
      refine ⟨ends, cash, trips, trips_sum trips, .inl ⟨idle, ?_⟩⟩
      rw [hequity, kept, here.1, here.2, zero_mul, add_zero]
    · have held := sold.held
      rw [here.1] at held
      exact absurd held (lt_irrefl 0)
  · rcases closeOut_ok hclose with kept | ⟨price, timeMs, hcloses, sold⟩
    · rw [← kept, ← htrades] at trips
      refine ⟨ends, cash, trips, trips_sum trips,
        .inr ⟨first, trade, feeRate, r, last, ended, idle, entry, hafter, hlast, ?_⟩⟩
      rw [hequity, kept, entry.cashBefore]
      ring
    · have sells := Entry.trip trips ended idle entry openTrade sold (.inr hcloses)
      rw [← htrades] at sells
      refine ⟨candles.length + 1, account.cash.value, sells, trips_sum sells,
        .inl ⟨fun i hfirst hlast => by omega, ?_⟩⟩
      rw [hequity, sold.empty, Decimal.zero_value, zero_mul, add_zero]

end

attribute [local instance] DecimalMath.exact_ DecimalMath.exact_exactMath

def sampleBar (minute : Int64) (open_ close : Decimal) : Candle where
  openTimeMs := minute * 60000
  closeTimeMs := minute * 60000 + 59999
  open_
  high := if open_.le close then close else open_
  low := if open_.le close then open_ else close
  close
  volume := .ofUInt32 1
  trades := none

def sampleBars : List Candle :=
  [sampleBar 0 (.ofUInt32 100) (.ofUInt32 80), sampleBar 1 (.ofUInt32 80) (.ofUInt32 100),
    sampleBar 2 (.ofUInt32 100) (.ofUInt32 160), sampleBar 3 (.ofUInt32 160) (.ofUInt32 100)]

/-- Long after the first bar, flat after the third. -/
def sampleStrategy : Strategy Nat where
  onStart _ bars := .ok bars
  onBar _ _ bars := .ok
    (if bars = 0 then some .longAllIn else if bars = 2 then some .flat else none, bars + 1)
  onFinish _ bars := .ok bars

def sampleConfig : BacktestConfig where
  initialCash := .ofNat 1000
  feeBps := .ofNat 2500
  closeOutAtEnd := true

def sampleMarket : MarketId := ⟨.binanceSpot, .btcUsdt, .m1⟩

def sampleResult : BacktestResult where
  initialCash := .ofUInt32 1000
  finalEquity := .ofUInt32 1200
  totalReturnPct := .ofUInt32 20
  tradeCount := 1
  maxDrawdownPct := .ofUInt32 25
  trades := [{
    symbol := sampleMarket.symbol
    entryTimeMs := 60000
    exitTimeMs := 180000
    entryPrice := .ofUInt32 80
    exitPrice := .ofUInt32 160
    qty := .ofUInt32 10
    grossQuotePnl := .ofUInt32 200
    entryOrderId := none
    exitOrderId := none }]

theorem sample_telescopes : ∃ ends cash,
    Telescopes sampleConfig sampleMarket sampleStrategy 0 sampleBars sampleResult ends cash :=
  run_telescopes (show run sampleConfig sampleMarket sampleBars sampleStrategy 0 =
    .ok (sampleResult, 4) by decide +kernel)

end QuantForge.Backtest
