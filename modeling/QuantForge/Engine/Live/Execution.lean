import QuantForge.Engine.Live.World

namespace QuantForge.Live

open DecimalMath

section Rules

variable [DecimalMath]

def maybeRoundQty (qty : Decimal) (rules : SymbolRules) : Except Panic Decimal :=
  match rules.effectiveMarketStepSize with
  | some stepSize => qty.roundDownToStep stepSize
  | none => .ok qty

def ensureEntryNotional (rules : SymbolRules) (quoteOrderQty : Decimal) :
    Except EngineError Unit :=
  match rules.minNotional with
  | some minNotional =>
    if quoteOrderQty.lt minNotional then
      .error (.invalidConfig (s!"quote_order_qty {quoteOrderQty.toText} is below exchange " ++
        s!"min_notional {minNotional.toText}"))
    else .ok ()
  | none => .ok ()

/-- The market minimum, where `qty` is below it. -/
def sellQtyBelowMarketMin (qty : Decimal) (rules : SymbolRules) : Option Decimal :=
  rules.effectiveMarketMinQty.filter fun minQty => qty.lt minQty

/-- The market maximum, where `qty` exceeds it. -/
def sellQtyAboveMarketMax (qty : Decimal) (rules : SymbolRules) : Option Decimal :=
  rules.effectiveMarketMaxQty.filter fun maxQty => maxQty.lt qty

/-- Whether a position of this quantity cannot be sold. -/
def isDustRemnant (qty : Decimal) (rules : SymbolRules) : Except Panic Bool :=
  if qty.le .zero then .ok false
  else do
    let tradeable ← maybeRoundQty qty rules
    .ok (tradeable.le .zero || (sellQtyBelowMarketMin tradeable rules).isSome)

/-- Whether the quantity is sent: not where nothing sellable remained or the
exchange would reject it as dust. -/
def sends (requestedQty : Decimal) (rules : SymbolRules) : Except EngineError Bool :=
  if requestedQty.le .zero then .ok false
  else if (sellQtyBelowMarketMin requestedQty rules).isSome then .ok false
  else
    match sellQtyAboveMarketMax requestedQty rules with
    | some maxQty => .error (.invalidState (s!"sell quantity {requestedQty.toText} exceeds " ++
        s!"exchange maximum {maxQty.toText}"))
    | none => .ok true

def freeBaseQty (rules : SymbolRules) (balances : List AssetBalance) : Decimal :=
  ((balances.find? fun balance => Text.eqIgnoreAsciiCase balance.asset rules.baseAsset).map
    (·.free)).getD .zero

end Rules

def idText (id : Option VenueOrderId) : String := id.elim "none" (·.text)

def targetSide : TargetPosition → Side
  | .longAllIn => .buy
  | .flat => .sell

def sanitizeClientOrderIdFragment (input : String) (maxLen : Nat) : String :=
  let out := (input.toList.filter fun c => Text.isAsciiAlphanumeric c || c == '-' || c == '_').take
    maxLen
  if out.isEmpty then "run" else String.ofList out

section Records

variable [DecimalMath]

/-- The quantity an entry is recorded with: net of base fees, or gross where the
fills were not reported. -/
def entryQty (rules : SymbolRules) (order : ExchangeOrder) (executedQty : Decimal) :
    Except Panic Decimal := do
  let net ← order.netBaseQtyAfterBaseFees rules.baseAsset
  .ok (net.getD executedQty)

/-- The position an answered entry leaves, where it bought anything. -/
def entryPosition (rules : SymbolRules) (bar : Candle) (order : ExchangeOrder) :
    Except Halt (Option PositionState) :=
  match order.executedQty with
  | none => .error (.failed (.invalidState ("exchange did not report an executed quantity for " ++
      s!"entry order {idText order.orderId}; reconcile the position manually with " ++
      "`monitor status`")))
  | some executedQty =>
    if executedQty.le .zero then .ok none
    else do
      let qty ← (entryQty rules order executedQty).mapError .panicked
      if qty.le .zero then .ok none
      else do
        let entryPrice ← order.averagePrice.mapError .panicked
        .ok (some {
          qty
          entryPrice
          entryTimeMs := order.transactTimeMs.or (some bar.closeTimeMs)
          entryOrderId := order.orderId })

/-- Whether what an exit leaves stays a position: a remnant of dust is written
off. -/
def keepsRemnant (remainingQty : Decimal) (rules : SymbolRules) : Except Panic Bool :=
  if Decimal.lt .zero remainingQty then (isDustRemnant remainingQty rules).map (!·) else .ok false

/-- What an answered exit closed, where it sold anything, and the position it
leaves. -/
def exitPosition (rules : SymbolRules) (order : ExchangeOrder) (before : PositionState) :
    Except Halt (Option (Decimal × PositionState)) :=
  match order.executedQty with
  | none => .error (.failed (.invalidState ("exchange did not report an executed quantity for " ++
      s!"exit order {idText order.orderId}; run state left unchanged — reconcile manually with " ++
      "`monitor status`")))
  | some executedQty =>
    let closedQty := executedQty.min before.qty
    if closedQty.le .zero then .ok none
    else do
      let difference ← (sub before.qty closedQty).mapError .panicked
      let remainingQty := difference.max .zero
      let kept ← (keepsRemnant remainingQty rules).mapError .panicked
      .ok (some (closedQty, if kept then { before with qty := remainingQty } else .flat))

/-- The record of an exit, refused where a price is missing. -/
def closedTrade (symbol : Symbol) (bar : Candle) (order : ExchangeOrder) (before : PositionState)
    (closedQty : Decimal) : Except Halt ClosedTrade :=
  match before.entryPrice with
  | none => .error (.failed (.invalidState ("position had no recorded entry price; the exit was " ++
      "executed and position state updated, but no closed-trade row was written because its " ++
      "PnL would be fabricated")))
  | some entryPrice => do
    match ← order.averagePrice.mapError .panicked with
    | none => .error (.failed (.invalidState ("exchange did not report a fill price for exit " ++
        s!"order {idText order.orderId}; the exit was executed and position state updated, but " ++
        "no closed-trade row was written because its PnL would be fabricated")))
    | some exitPrice => do
      let gain ← (sub exitPrice entryPrice).mapError .panicked
      let grossQuotePnl ← (mul gain closedQty).mapError .panicked
      .ok {
        symbol
        entryTimeMs := before.entryTimeMs.getD bar.openTimeMs
        exitTimeMs := order.transactTimeMs.getD bar.closeTimeMs
        entryPrice
        exitPrice
        qty := closedQty
        grossQuotePnl
        entryOrderId := before.entryOrderId
        exitOrderId := order.orderId }

/-- The quantity a simulated order executes. -/
def syntheticQty (rules : SymbolRules) (position : PositionState) (target : TargetPosition)
    (quoteOrderQty close : Decimal) : Except Halt Decimal :=
  match target with
  | .longAllIn =>
    if close.le .zero then
      .error (.failed (.invalidState
        "cannot simulate market buy with non-positive reference price"))
    else (do
      let rawQty ← div quoteOrderQty close
      maybeRoundQty rawQty rules).mapError .panicked
  | .flat => (maybeRoundQty position.qty rules).mapError .panicked

/-- An order filled at the bar's close, without fees. -/
def syntheticOrder (state : BotRunState) (target : TargetPosition) (quoteOrderQty : Decimal)
    (bar : Candle) (clientOrderId : String) (qty notional : Decimal) : ExchangeOrder where
  symbol := state.market.symbol
  side := targetSide target
  orderType := "MARKET"
  status := .filled
  orderId := none
  clientOrderId := some clientOrderId
  requestedQty := if target = .flat then some qty else none
  requestedQuoteQty := if target = .longAllIn then some quoteOrderQty else none
  executedQty := some qty
  cumulativeQuoteQty := some notional
  avgPrice := some bar.close
  transactTimeMs := some bar.closeTimeMs
  fills := some []

end Records

variable {σ S : Type} [DecimalMath] (outside : Outside) (cfg : LiveTradeConfig σ)
  (rules : SymbolRules)

def newClientOrderId (tag runId : String) : Part S String := do
  let uuid ← Part.newUuid outside
  let nowMs ← Part.nowUtcMs outside
  let nonce := String.ofList (uuid.toList.take 8)
  pure (s!"qf-{sanitizeClientOrderIdFragment tag 5}-{sanitizeClientOrderIdFragment runId 8}-" ++
    s!"{nowMs % 100000000}-{nonce}")

def syntheticMarketOrder (target : TargetPosition) (bar : Candle) : Part S ExchangeOrder := do
  let state ← Part.runState
  let qty ← Prog.ofExcept (syntheticQty rules state.position target cfg.quoteOrderQty bar.close)
  let notional ← Part.orPanic (mul qty bar.close)
  let clientOrderId ← newClientOrderId outside "dry" state.runId
  let order := syntheticOrder state target cfg.quoteOrderQty bar clientOrderId qty notional
  Part.record (.simulated bar order)
  pure order

def submitEntry (bar : Candle) : Part S ExchangeOrder := do
  let state ← Part.runState
  let clientOrderId ← newClientOrderId outside "entry" state.runId
  Part.submitMarketOrder outside bar {
    symbol := cfg.market.symbol
    side := .buy
    quantity := none
    quoteOrderQty := some cfg.quoteOrderQty
    newClientOrderId := some clientOrderId }

/-- Sells what is free of the position, rounded down; a quantity the exchange
would reject is not sent. -/
def submitExit (bar : Candle) : Part S (Option ExchangeOrder) := do
  let balances ← Part.accountBalances outside
  let state ← Part.runState
  let requestedQty ← Part.orPanic
    (maybeRoundQty ((freeBaseQty rules balances).min state.position.qty) rules)
  match ← Part.orRefuse (sends requestedQty rules) with
  | false => pure none
  | true => do
    let clientOrderId ← newClientOrderId outside "exit" state.runId
    let order ← Part.submitMarketOrder outside bar {
      symbol := cfg.market.symbol
      side := .sell
      quantity := some requestedQty
      quoteOrderQty := none
      newClientOrderId := some clientOrderId }
    pure (some order)

/-- The order of a decision, answered by the venue or simulated, where one is
sent at all. -/
def placeOrder (target : TargetPosition) (bar : Candle) : Part S (Option ExchangeOrder) :=
  match cfg.executionMode, outside.signed, target with
  | .dryRun, _, _ => do
    let order ← syntheticMarketOrder outside cfg rules target bar
    pure (some order)
  | .live, false, _ => Part.refuse (.invalidConfig "live mode requires a trading venue")
  | .live, true, .longAllIn => do
    let order ← submitEntry outside cfg bar
    pure (some order)
  | .live, true, .flat => submitExit outside cfg rules bar

/-- The average price is computed for the log line, where the log shows it. -/
def logOrder (order : ExchangeOrder) : Part S Unit :=
  if outside.infoEnabled then Part.orPanic (order.averagePrice.map fun _ => ()) else pure ()

/-- Appends the order event; its failure is deferred until the position is
saved. -/
def journalOrder (order : ExchangeOrder) : Part S (Except Halt Unit) := do
  let appended ← Part.appendOrderEvent outside order
  Part.modifySummary fun summary =>
    { summary with submittedOrders := summary.submittedOrders + 1 }
  pure (appended.mapError fun error => .failed (.invalidState
    (s!"order executed but journaling the order event failed ({error.toText}); reconcile " ++
      "manually with `monitor status`")))

/-- Records the position in memory and in the journal. -/
def savePosition (position : PositionState) : Part S Unit := do
  let state ← Part.runState
  let updatedAtMs ← Part.nowUtcMs outside
  Part.setState { state with position, updatedAtMs, status := .running, lastError := none }
  Part.saveRunState outside

def recordEntry (bar : Candle) (order : ExchangeOrder) (journaled : Except Halt Unit) :
    Part S Unit := do
  match ← Prog.ofExcept (entryPosition rules bar order) with
  | none => Prog.ofExcept journaled
  | some position => do
    savePosition outside position
    Prog.ofExcept journaled

def appendTrade (trade : ClosedTrade) : Part S Unit := do
  Part.appendClosedTrade outside trade
  Part.modifySummary fun summary => { summary with closedTrades := summary.closedTrades + 1 }

def recordExit (bar : Candle) (order : ExchangeOrder) (journaled : Except Halt Unit) :
    Part S Unit := do
  let state ← Part.runState
  match ← Prog.ofExcept (exitPosition rules order state.position) with
  | none => Prog.ofExcept journaled
  | some (closedQty, position) => do
    savePosition outside position
    Prog.ofExcept journaled
    let trade ← Prog.ofExcept (closedTrade cfg.market.symbol bar order state.position closedQty)
    appendTrade outside trade

def recordOrder (target : TargetPosition) (bar : Candle) (order : ExchangeOrder)
    (journaled : Except Halt Unit) : Part S Unit :=
  match target with
  | .longAllIn => recordEntry outside rules bar order journaled
  | .flat => recordExit outside cfg rules bar order journaled

def checkEntry (target : TargetPosition) : Except EngineError Unit :=
  if target = .longAllIn then ensureEntryNotional rules cfg.quoteOrderQty else .ok ()

/-- What follows an answered order. -/
def takeAnswer (target : TargetPosition) (bar : Candle) (order : ExchangeOrder) : Part S Unit := do
  logOrder outside order
  let journaled ← journalOrder outside order
  recordOrder outside cfg rules target bar order journaled

/-- Moves the position to `target`, and records what that changed. -/
def executeTarget (target : TargetPosition) (bar : Candle) : Part S Unit := do
  Part.record (.decided bar target)
  Part.orRefuse (checkEntry cfg rules target)
  match ← placeOrder outside cfg rules target bar with
  | none => pure ()
  | some order => takeAnswer outside cfg rules target bar order

end QuantForge.Live
