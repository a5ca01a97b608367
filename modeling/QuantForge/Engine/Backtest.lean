import QuantForge.Engine.Error
import QuantForge.Model.DecimalMath

namespace QuantForge

open DecimalMath

structure BacktestConfig where
  initialCash : Decimal
  feeBps : Decimal
  closeOutAtEnd : Bool

structure BacktestResult where
  initialCash : Decimal
  finalEquity : Decimal
  totalReturnPct : Decimal
  tradeCount : Nat
  maxDrawdownPct : Decimal
  trades : List ClosedTrade
  deriving DecidableEq

namespace Backtest

structure OpenTrade where
  entryTimeMs : Int64
  entryPrice : Decimal
  qty : Decimal
  cashBefore : Decimal
  deriving DecidableEq

/-- The record of a trade sold at `exitPrice`. -/
def OpenTrade.closed (trade : OpenTrade) (symbol : Symbol) (exitPrice : Decimal)
    (exitTimeMs : Int64) (grossQuotePnl : Decimal) : ClosedTrade where
  symbol
  entryTimeMs := trade.entryTimeMs
  exitTimeMs
  entryPrice := trade.entryPrice
  exitPrice
  qty := trade.qty
  grossQuotePnl
  entryOrderId := none
  exitOrderId := none

/-- The money side of a run. -/
structure Account where
  cash : Decimal
  qty : Decimal
  openTrade : Option OpenTrade
  trades : List ClosedTrade
  deriving DecidableEq

/-- A run between two bars, with the decision the next open fills. -/
structure Replay (σ : Type) where
  account : Account
  pendingTarget : Option TargetPosition
  peakEquity : Decimal
  maxDrawdown : Decimal
  ctx : StrategyContext
  strategy : σ

def checked (value : Option Decimal) (what : String) : Except EngineError Decimal :=
  match value with
  | some value => .ok value
  | none => .error (.overflow what)

def callback {α : Type} (answer : Except StrategyError α) : Except EngineError α :=
  match answer with
  | .ok value => .ok value
  | .error error => .error (.strategy error)

variable [DecimalMath]

/-- Equity at `price`: `cash + qty × price`. -/
def mark (cash qty price : Decimal) : Except EngineError Decimal :=
  checked ((checkedMul qty price).bind fun value => checkedAdd cash value) "the equity mark"

/-- Sells the whole position at `price`. -/
def executeFlat (market : MarketId) (price : Decimal) (timestampMs : Int64) (feeRate : Decimal)
    (account : Account) : Except EngineError Account :=
  if account.qty.le .zero then .ok account
  else do
    let notional ← checked (checkedMul account.qty price) "the exit"
    let fee ← checked (checkedMul notional feeRate) "the exit"
    let cashAfter ← checked
      ((checkedAdd account.cash notional).bind fun value => checkedSub value fee) "the exit"
    match account.openTrade with
    | some trade => do
      let grossQuotePnl ← checked (checkedSub cashAfter trade.cashBefore) "the exit"
      .ok {
        cash := cashAfter
        qty := .zero
        openTrade := none
        trades := account.trades ++
          [trade.closed market.symbol price timestampMs grossQuotePnl] }
    | none => .ok { account with cash := cashAfter, qty := .zero }

/-- Spends all cash at `price`, the fee included. -/
def executeLong (price : Decimal) (timestampMs : Int64) (feeRate : Decimal) (account : Account) :
    Except EngineError Account :=
  if Decimal.lt .zero account.qty || account.cash.le .zero then .ok account
  else do
    let denominator ← checked
      ((checkedAdd (.ofNat 1 Decimal.one_lt) feeRate).bind fun factor => checkedMul price factor) "the entry"
    if denominator.le .zero then .ok account
    else do
      let buyQty ← checked (checkedDiv account.cash denominator) "the entry"
      let notional ← checked (checkedMul buyQty price) "the entry"
      let fee ← checked (checkedMul notional feeRate) "the entry"
      let cashAfter ← checked
        ((checkedSub account.cash notional).bind fun value => checkedSub value fee) "the entry"
      .ok {
        cash := cashAfter
        qty := buyQty
        openTrade := some ⟨timestampMs, price, buyQty, account.cash⟩
        trades := account.trades }

/-- Fills `target` at `price`. -/
def executeTarget (market : MarketId) (target : TargetPosition) (price : Decimal)
    (timestampMs : Int64) (feeRate : Decimal) (account : Account) : Except EngineError Account :=
  match target with
  | .flat => executeFlat market price timestampMs feeRate account
  | .longAllIn => executeLong price timestampMs feeRate account

/-- The pending decision filled at the bar's open; the first bar fills none. -/
def fill (market : MarketId) (feeRate : Decimal) (index : Nat) (candle : Candle)
    (pendingTarget : Option TargetPosition) (account : Account) : Except EngineError Account :=
  if 0 < index then
    match pendingTarget with
    | some target =>
      executeTarget market target candle.open_ candle.openTimeMs feeRate account
    | none => .ok account
  else .ok account

/-- The peak and the deepest fall from it, with the equity at this close. -/
def markEquity (close : Decimal) (account : Account) (peakEquity maxDrawdown : Decimal) :
    Except EngineError (Decimal × Decimal) := do
  let equity ← mark account.cash account.qty close
  let peakEquity := if peakEquity.lt equity then equity else peakEquity
  if Decimal.lt .zero peakEquity then do
    let drawdown ← checked
      ((checkedSub peakEquity equity).bind fun fall => checkedDiv fall peakEquity) "the drawdown"
    .ok (peakEquity, if maxDrawdown.lt drawdown then drawdown else maxDrawdown)
  else .ok (peakEquity, maxDrawdown)

variable {σ : Type}

/-- The fill at a bar's open, and the context it leaves. -/
def openBar (market : MarketId) (feeRate : Decimal) (index : Nat) (candle : Candle)
    (r : Replay σ) : Except EngineError (Replay σ) := do
  let account ← fill market feeRate index candle r.pendingTarget r.account
  .ok { r with
    account
    ctx := { r.ctx with
      nowMs := candle.openTimeMs, cash := account.cash, positionQty := account.qty } }

/-- Everything a bar does before the strategy sees it. -/
def presentBar (market : MarketId) (feeRate : Decimal) (index : Nat) (candle : Candle)
    (r : Replay σ) : Except EngineError (Replay σ) := do
  let r ← openBar market feeRate index candle r
  let (peakEquity, maxDrawdown) ← markEquity candle.close r.account r.peakEquity r.maxDrawdown
  .ok { r with peakEquity, maxDrawdown }

def bar (market : MarketId) (feeRate : Decimal) (strategy : Strategy σ) (index : Nat)
    (candle : Candle) (r : Replay σ) : Except EngineError (Replay σ) := do
  let r ← presentBar market feeRate index candle r
  let (pendingTarget, state) ← callback (strategy.onBar r.ctx candle r.strategy)
  .ok { r with pendingTarget, strategy := state }

/-- The bars from `index` on, in the order given. -/
def bars (market : MarketId) (feeRate : Decimal) (strategy : Strategy σ) :
    Nat → List Candle → Replay σ → Except EngineError (Replay σ)
  | _, [], r => .ok r
  | index, candle :: candles, r => do
    let r ← bar market feeRate strategy index candle r
    bars market feeRate strategy (index + 1) candles r

/-- What `on_start` is told: the first bar's open time, the initial cash and
no position. -/
def startContext (cfg : BacktestConfig) (market : MarketId) (first : Candle) : StrategyContext where
  market
  nowMs := first.openTimeMs
  cash := cfg.initialCash
  positionQty := .zero

/-- The checks before anything is replayed: the fee rate, and what `on_start`
is told. -/
def starting (cfg : BacktestConfig) (market : MarketId) (candles : List Candle) :
    Except EngineError (Decimal × StrategyContext) :=
  match candles with
  | [] => .error .noCandles
  | first :: _ =>
    if cfg.initialCash.le .zero then
      .error (.invalidConfig
        s!"initial_cash must be greater than 0, got {cfg.initialCash.toText}")
    else if cfg.feeBps.lt .zero then
      .error (.invalidConfig s!"fee_bps must be zero or greater, got {cfg.feeBps.toText}")
    else do
      let feeRate ← checked (checkedDiv cfg.feeBps (.ofNat 10000)) "the fee rate"
      .ok (feeRate, startContext cfg market first)

/-- The fee rate and the run before its first bar. -/
def prepare (cfg : BacktestConfig) (market : MarketId) (candles : List Candle)
    (strategy : Strategy σ) (state : σ) : Except EngineError (Decimal × Replay σ) := do
  let (feeRate, ctx) ← starting cfg market candles
  let state ← callback (strategy.onStart ctx state)
  .ok (feeRate, {
    account := ⟨cfg.initialCash, .zero, none, []⟩
    pendingTarget := none
    peakEquity := .zero
    maxDrawdown := .zero
    ctx
    strategy := state })

/-- A position still open is sold at the last close, where the config asks
for it. -/
def closeOut (cfg : BacktestConfig) (market : MarketId) (feeRate : Decimal)
    (candles : List Candle) (account : Account) : Except EngineError Account :=
  if cfg.closeOutAtEnd && Decimal.lt .zero account.qty then
    match candles.getLast? with
    | some last => executeTarget market .flat last.close last.closeTimeMs feeRate account
    | none => .ok account
  else .ok account

/-- What the run reports of its final account. -/
def report (cfg : BacktestConfig) (candles : List Candle) (maxDrawdown : Decimal)
    (account : Account) : Except EngineError BacktestResult :=
  match candles.getLast? with
  | none => .error (.invalidState "no candles at close-out")
  | some last => do
    let finalEquity ← mark account.cash account.qty last.close
    let totalReturnPct ← checked
      (((checkedSub finalEquity cfg.initialCash).bind fun gain =>
        checkedDiv gain cfg.initialCash).bind fun ratio => checkedMul ratio (.ofNat 100 Decimal.hundred_lt))
      "the return"
    let maxDrawdownPct ← checked (checkedMul maxDrawdown (.ofNat 100 Decimal.hundred_lt)) "the drawdown"
    .ok {
      initialCash := cfg.initialCash
      finalEquity
      totalReturnPct
      tradeCount := account.trades.length
      maxDrawdownPct
      trades := account.trades }

/-- Replays the candles, in the order given, through the strategy. -/
def run (cfg : BacktestConfig) (market : MarketId) (candles : List Candle)
    (strategy : Strategy σ) (state : σ) : Except EngineError (BacktestResult × σ) := do
  let (feeRate, r) ← prepare cfg market candles strategy state
  let r ← bars market feeRate strategy 0 candles r
  let account ← closeOut cfg market feeRate candles r.account
  let ctx := { r.ctx with cash := account.cash, positionQty := account.qty }
  let state ← callback (strategy.onFinish ctx r.strategy)
  let result ← report cfg candles r.maxDrawdown account
  .ok (result, state)

end Backtest

end QuantForge
