import QuantForge.Engine.Live.State
import QuantForge.Engine.Live.Execution

namespace QuantForge.Cli

open DecimalMath

/-- What a command was started with: the exchange it talks to, the environment its
store is bound to, and the fingerprint of its API key, where it has one. -/
structure AppContext where
  exchangeId : ExchangeId
  environment : Option Environment
  keyFingerprint : Option KeyFingerprint
  deriving DecidableEq

namespace AppContext

/-- The identity a run started by this invocation records. -/
def runIdentity (ctx : AppContext) (mode : ExecutionMode) : RunIdentity :=
  .recorded ctx.environment
    (match mode with
    | .live => ctx.keyFingerprint.map .keyFingerprint
    | .dryRun => none)

/-- The signed connectors exist only when credentials were supplied. -/
def signed (ctx : AppContext) : Bool := ctx.keyFingerprint.isSome

end AppContext

structure TradeCloseArgs where
  symbol : Symbol
  interval : Interval
  strategyName : String
  runId : Option String
  yes : Bool
  deriving DecidableEq

/-- How a close ends that does not go on: it is refused, or a decimal operator
panics. -/
inductive CloseHalt
  | refused (message : String)
  | panicked (panic : Panic)

def market (ctx : AppContext) (args : TradeCloseArgs) : MarketId :=
  ⟨ctx.exchangeId, args.symbol, args.interval⟩

/-- A run is closed only on its own exchange and symbol, and only if it traded. -/
def checkRun (market : MarketId) (runState : BotRunState) : Except CloseHalt Unit :=
  if runState.market.exchange ≠ market.exchange ∨ runState.market.symbol ≠ market.symbol then
    .error (.refused (s!"run {runState.runId} was recorded for market " ++
      s!"{runState.market.exchange.asStr} {runState.market.symbol.name}, but this invocation " ++
      s!"targets {market.exchange.asStr} {market.symbol.name}; refusing to close it"))
  else if runState.executionMode = .dryRun then
    .error (.refused (s!"run {runState.runId} was recorded in dry-run mode; its position is " ++
      "synthetic and there is nothing to close on the exchange"))
  else .ok ()

/-- A run is sold only under the identity that recorded it. -/
def checkIdentity (ctx : AppContext) (runId : String) (recorded : Option RunIdentity) :
    Except CloseHalt Unit :=
  match recorded with
  | none => .error (.refused s!"run {runId} has no identity record")
  | some recorded =>
    (recorded.matches_ (ctx.runIdentity .live)).mapError fun error =>
      .refused s!"run {runId}: {Live.identityErrorText error}; refusing to close it"

section

variable [DecimalMath]

def roundQuantityForRules (qty : Decimal) (rules : SymbolRules) : Except CloseHalt Decimal :=
  (match rules.effectiveMarketStepSize with
  | some stepSize => qty.roundDownToStep stepSize
  | none => .ok qty).mapError .panicked

/-- The market sell of a close, where one is confirmed. -/
def sellRequest (args : TradeCloseArgs) (rules : SymbolRules) (balances : List AssetBalance)
    (runState : BotRunState) (nowMs : Int64) : Except CloseHalt (Option MarketOrderRequest) := do
  let free := Live.freeBaseQty rules balances
  let qty ← roundQuantityForRules (free.min runState.position.qty) rules
  if !args.yes then .ok none
  else if qty.le .zero then
    .error (.refused s!"no sellable quantity available for {rules.baseAsset}")
  else if runState.position.isOpen ∧ runState.position.entryPrice = none then
    .error (.refused (s!"run {runState.runId} has no recorded entry price; closing it here would " ++
      s!"fabricate PnL. Use `monitor close-position --symbol {args.symbol.name} --yes` to sell " ++
      "without writing a trade record"))
  else .ok (some {
    symbol := args.symbol
    side := .sell
    quantity := some qty
    quoteOrderQty := none
    newClientOrderId := some s!"manual-close-{nowMs}" })

/-- Whether what a sale leaves is below the tradeable minimum. -/
def remnantIsDust (remainingQty : Decimal) (rules : SymbolRules) : Except CloseHalt Bool := do
  let tradeableRemnant ← roundQuantityForRules remainingQty rules
  return Decimal.lt .zero remainingQty &&
    (tradeableRemnant.le .zero || rules.effectiveMarketMinQty.any (tradeableRemnant.lt ·))

/-- An order id as `{:?}` prints it. -/
def orderIdDebug : Option VenueOrderId → String
  | some id => s!"Some(VenueOrderId({Text.debug id.text}))"
  | none => "None"

/-- The run after its sale, where the sale closed any of its position. -/
def soldRun (rules : SymbolRules) (order : ExchangeOrder) (nowMs : Int64) (runState : BotRunState) :
    Except CloseHalt (Option BotRunState) :=
  match order.executedQty with
  | none => .error (.refused ("exchange did not report an executed quantity for order " ++
      s!"{orderIdDebug order.orderId}; run state left unchanged — reconcile manually with " ++
      "`monitor status`"))
  | some executedQty => do
    if runState.position.isOpen && Decimal.lt .zero executedQty then
      let closedQty := executedQty.min runState.position.qty
      let difference ← (sub runState.position.qty closedQty).mapError .panicked
      let remainingQty := difference.max .zero
      let dust ← remnantIsDust remainingQty rules
      if Decimal.lt .zero remainingQty && !dust then
        return some { runState with
          updatedAtMs := nowMs
          lastError := none
          position := { runState.position with qty := remainingQty }
          status := .running
          stoppedAtMs := none }
      else
        return some { runState with
          updatedAtMs := nowMs
          lastError := none
          position := .flat
          status := .stopped
          stoppedAtMs := some nowMs }
    else return none

end

theorem checkRun_ok {market : MarketId} {runState : BotRunState}
    (h : checkRun market runState = .ok ()) :
    runState.market.exchange = market.exchange ∧ runState.market.symbol = market.symbol ∧
      runState.executionMode = .live := by
  unfold checkRun at h
  split_ifs at h with other dry
  rw [not_or, not_not, not_not] at other
  refine ⟨other.1, other.2, ?_⟩
  cases hmode : runState.executionMode with
  | dryRun => exact absurd hmode dry
  | live => rfl

end QuantForge.Cli
