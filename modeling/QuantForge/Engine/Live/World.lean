import QuantForge.Engine.DataSync.Range
import QuantForge.Framework.Meets
import QuantForge.Model.Order
import QuantForge.Model.Rules
import QuantForge.Storage.Journal

namespace QuantForge

structure LiveTradeSummary where
  runId : String
  processedBars : Nat
  submittedOrders : Nat
  closedTrades : Nat
  lastProcessedOpenTimeMs : Option Int64
  deriving DecidableEq

/-- A built strategy's name and parameters, and the strategy or why it cannot
be built. -/
structure StrategyConfig (σ : Type) where
  strategyName : String
  json : String
  build : Except StrategyError (Strategy σ × σ)

structure LiveTradeConfig (σ : Type) where
  market : MarketId
  strategy : StrategyConfig σ
  executionMode : ExecutionMode
  identity : RunIdentity
  quoteOrderQty : Decimal
  bootstrapBars : Nat
  bootstrapEnter : Bool
  batchLimit : UInt16
  runId : Option String
  maxLoops : Option Nat

namespace Live

/-- How an engine call ends that does not answer: an error is returned, a panic
ends the process. -/
inductive Halt
  | failed (error : EngineError)
  | panicked (panic : Panic)

/-- How a journal write ends: done, or failed, having taken effect or not. -/
inductive WriteOutcome
  | done
  | failed (error : StorageError) (effect : Bool)

namespace WriteOutcome

def answer : WriteOutcome → Except StorageError Unit
  | done => .ok ()
  | failed error _ => .error error

def effect : WriteOutcome → Bool
  | done => true
  | failed _ effect => effect

end WriteOutcome

/-- How an order ends: the venue answers it, or the call fails, the order having
been executed or not. -/
inductive OrderOutcome
  | answered (order : ExchangeOrder)
  | failed (error : ExchangeError) (executed : Bool)

namespace OrderOutcome

def answer : OrderOutcome → Except Halt ExchangeOrder
  | answered order => .ok order
  | failed error _ => .error (.failed (.exchange error))

def executed : OrderOutcome → Bool
  | answered _ => true
  | failed _ executed => executed

end OrderOutcome

/-- What everything outside a live engine answers, call by call. Other
processes may write candles before every read of them. -/
structure Outside extends QuantForge.Outside where
  signed : Bool
  symbolRules : Nat → Except ExchangeError SymbolRules
  balances : Nat → Except ExchangeError (List AssetBalance)
  submit : Nat → MarketOrderRequest → OrderOutcome
  write : Nat → WriteOutcome
  read : Nat → Option StorageError
  uuid : Nat → String
  meanwhile : Nat → List Candle
  infoEnabled : Bool

/-- What happens in a run, in the order it happens: a call of `execute_target`,
a bar given to the strategy, an order sent to the venue or simulated, and the
journal's writes with whether they took effect. -/
inductive Event
  | decided (bar : Candle) (target : TargetPosition)
  | fed (bar : Candle)
  | submitted (bar : Candle) (request : MarketOrderRequest) (outcome : OrderOutcome)
  | simulated (bar : Candle) (order : ExchangeOrder)
  | journaled (order : ExchangeOrder) (effect : Bool)
  | saved (state : BotRunState) (effect : Bool)
  | closed (trade : ClosedTrade) (effect : Bool)

/-- The journal's runs, the run the engine holds in memory, and what happened so
far. -/
structure Book where
  runs : RunTable
  state : BotRunState
  log : List Event

def Book.record (event : Event) (b : Book) : Book := { b with log := b.log ++ [event] }

/-- The same with the run saved, where the write takes effect. -/
def Book.save (runs : RunTable) (effect : Bool) (b : Book) : Book where
  runs := if effect then runs else b.runs
  state := b.state
  log := b.log ++ [.saved b.state effect]

/-- A run's book, its candles, its summary, and how many calls were made. -/
structure World (S : Type) extends Book where
  feed : Feed S
  summary : LiveTradeSummary
  calls : Nat

namespace World

variable {S : Type}

def record (event : Event) (w : World S) : World S := { w with toBook := w.toBook.record event }

/-- The same after one more call. -/
def called (w : World S) : World S := { w with calls := w.calls + 1 }

end World

/-- A part of the live engine. -/
abbrev Part (S α : Type) := Prog (World S) Halt α

namespace Part

variable {S α : Type}

def ofFeed (x : Prog (Feed S) EngineError α) : Part S α :=
  Prog.within World.feed (fun feed w => { w with feed }) .failed x

def orPanic (answered : Except Panic α) : Part S α := Prog.ofExcept (answered.mapError .panicked)

def refuse (error : EngineError) : Part S α := Prog.ofExcept (.error (.failed error))

def orRefuse (answered : Except EngineError α) : Part S α :=
  Prog.ofExcept (answered.mapError .failed)

def runState : Part S BotRunState := fun w => (.ok w.state, w)

def setState (state : BotRunState) : Part S Unit := fun w => (.ok (), { w with state })

def modifySummary (f : LiveTradeSummary → LiveTradeSummary) : Part S Unit := fun w =>
  (.ok (), { w with summary := f w.summary })

def record (event : Event) : Part S Unit := fun w => (.ok (), w.record event)

variable (outside : Outside)

def nowUtcMs : Part S Int64 := ofFeed (Feed.nowUtcMs outside.toOutside)

def newUuid : Part S String := fun w => (.ok (outside.uuid w.calls), w.called)

def fetchSymbolRules : Part S SymbolRules := fun w =>
  ((outside.symbolRules w.calls).mapError (.failed ∘ .exchange), w.called)

def accountBalances : Part S (List AssetBalance) := fun w =>
  ((outside.balances w.calls).mapError (.failed ∘ .exchange), w.called)

def submitMarketOrder (bar : Candle) (request : MarketOrderRequest) : Part S ExchangeOrder :=
  fun w =>
    let outcome := outside.submit w.calls request
    (outcome.answer, w.called.record (.submitted bar request outcome))

/-- A read of the journal. -/
def readRun (runId : String) : Part S (Option RunRow) := fun w =>
  match outside.read w.calls with
  | some error => (.error (.failed (.storage error)), w.called)
  | none => (.ok (w.runs runId), w.called)

/-- A write of the run table to `next`, where the journal does not refuse it. -/
def writeRuns (next : Except StorageError RunTable) (write : RunTable → Bool → Book → Book) :
    Part S Unit := fun w =>
  match next with
  | .error error => (.error (.failed (.storage error)), w.called)
  | .ok runs =>
    let outcome := outside.write w.calls
    (outcome.answer.mapError (.failed ∘ .storage),
      { w.called with toBook := write runs outcome.effect w.toBook })

def createRun (state : BotRunState) (identity : RunIdentity) : Part S Unit := fun w =>
  writeRuns outside (w.runs.createRun state identity)
    (fun runs effect b => { b with runs := if effect then runs else b.runs }) w

def saveRunState : Part S Unit := fun w =>
  writeRuns outside (w.runs.saveRunState w.state) Book.save w

/-- Appends an order event; its failure is answered, for the caller to defer. -/
def appendOrderEvent (order : ExchangeOrder) : Part S (Except StorageError Unit) := fun w =>
  let outcome := outside.write w.calls
  (.ok outcome.answer, w.called.record (.journaled order outcome.effect))

def appendClosedTrade (trade : ClosedTrade) : Part S Unit := fun w =>
  let outcome := outside.write w.calls
  (outcome.answer.mapError (.failed ∘ .storage), w.called.record (.closed trade outcome.effect))

variable [CandleStore S]

/-- What other processes write before this read of the candles. -/
def meanwhile (market : MarketId) : Part S Unit := fun w =>
  (.ok (), { w.called with feed := { w.feed with
    store := (CandleStore.upsertCandles market (outside.meanwhile w.calls) w.feed.store).2 } })

def loadRecentCandles (market : MarketId) (limit : Nat) : Part S (List Candle) := do
  meanwhile outside market
  fun w => ((CandleStore.loadRecentCandles market limit w.feed.store).mapError
    (.failed ∘ .storage), w)

def loadCandles (market : MarketId) (query : CandleQuery) : Part S (List Candle) := do
  meanwhile outside market
  fun w => ((CandleStore.loadCandles market query w.feed.store).mapError (.failed ∘ .storage), w)

end Part

end Live

end QuantForge
