import QuantForge.Cli.TradeClose

namespace QuantForge.Cli

open DecimalMath Live

/-- How a sale ends that does not go on: the command refuses it, or a part it calls fails. -/
inductive SaleHalt
  | refused (message : String)
  | passed (halt : Halt)

def CloseHalt.sale : CloseHalt → SaleHalt
  | refused message => .refused message
  | panicked panic => .passed (.panicked panic)

/-- A part of a close, over the same stores and the same exchange as the live engine. -/
abbrev Sale (S α : Type) := Prog (World S) SaleHalt α

namespace Sale

variable {S α : Type}

def ofPart (x : Part S α) : Sale S α := Prog.within id (fun v _ => v) .passed x

def refuse (message : String) : Sale S α := Prog.ofExcept (.error (.refused message))

def ofClose (answered : Except CloseHalt α) : Sale S α := Prog.ofExcept (answered.mapError CloseHalt.sale)

def orPanic (answered : Except Panic α) : Sale S α :=
  Prog.ofExcept (answered.mapError fun panic => .passed (.panicked panic))

/-- A reported time, or the clock's. -/
def timeOr (outside : Live.Outside) (time : Option Int64) : Sale S Int64 :=
  match time with
  | some time => pure time
  | none => ofPart (Part.nowUtcMs outside)

end Sale

variable {S : Type} (outside : Live.Outside)

/-- Appends the order event; its failure is deferred until the position is saved. -/
def journalSale (order : ExchangeOrder) : Sale S (Except SaleHalt Unit) := do
  let appended ← Sale.ofPart (Part.appendOrderEvent outside order)
  pure (appended.mapError fun error => .refused
    (s!"order executed but journaling the order event failed ({error.toText}); reconcile " ++
      "manually with `monitor status`"))

section

variable [DecimalMath] (args : TradeCloseArgs) (rules : SymbolRules)

/-- Sends the market sell of a confirmed close; the log files it under `bar`. -/
def submitSale (bar : Candle) : Sale S (Option ExchangeOrder) := do
  let balances ← Sale.ofPart (Part.accountBalances outside)
  let runState ← Sale.ofPart Part.runState
  let nowMs ← Sale.ofPart (Part.nowUtcMs outside)
  match ← Sale.ofClose (sellRequest args rules balances runState nowMs) with
  | none => pure none
  | some request => do
    let order ← Sale.ofPart (Part.submitMarketOrder outside bar request)
    pure (some order)

/-- The record of a manual sale, refused where a price is missing. -/
def saleTrade (order : ExchangeOrder) (runId : String) (before : PositionState)
    (closedQty : Decimal) : Sale S ClosedTrade :=
  match before.entryPrice with
  | none => Sale.refuse (s!"run {runId} lost its recorded entry price; position state was updated " ++
      "but no closed-trade row was written")
  | some entryPrice => do
    match ← Sale.orPanic order.averagePrice with
    | none => Sale.refuse (s!"exchange did not report a fill price for order " ++
        s!"{orderIdDebug order.orderId}; position state was updated but no closed-trade row was " ++
        "written because its PnL would be fabricated")
    | some exitPrice => do
      let entryTimeMs ← Sale.timeOr outside (before.entryTimeMs.or order.transactTimeMs)
      let exitTimeMs ← Sale.timeOr outside order.transactTimeMs
      let gain ← Sale.orPanic (sub exitPrice entryPrice)
      let grossQuotePnl ← Sale.orPanic (mul gain closedQty)
      pure {
        symbol := args.symbol
        entryTimeMs
        exitTimeMs
        entryPrice
        exitPrice
        qty := closedQty
        grossQuotePnl
        entryOrderId := before.entryOrderId
        exitOrderId := order.orderId }

/-- Saves what an answered sale changed of its run, then records its trade. -/
def saveSale (order : ExchangeOrder) (journaled : Except SaleHalt Unit) : Sale S Unit := do
  let runState ← Sale.ofPart Part.runState
  let nowMs ← Sale.ofPart (Part.nowUtcMs outside)
  match ← Sale.ofClose (soldRun rules order nowMs runState), order.executedQty with
  | some sold, some executedQty => do
    Sale.ofPart (Part.setState sold)
    Sale.ofPart (Part.saveRunState outside)
    Prog.ofExcept journaled
    let trade ← saleTrade outside args order runState.runId runState.position
      (executedQty.min runState.position.qty)
    Sale.ofPart (Part.appendClosedTrade outside trade)
  | _, _ => Prog.ofExcept journaled

/-- What follows an answered sale. -/
def recordSale (order : ExchangeOrder) : Sale S Unit := do
  let journaled ← journalSale outside order
  saveSale outside args rules order journaled

/-- The sale of a close, from the balances to the record of its trade. -/
def closeSale (bar : Candle) : Sale S Unit := do
  match ← submitSale outside args rules bar with
  | none => pure ()
  | some order => recordSale outside args rules order

end

end QuantForge.Cli
