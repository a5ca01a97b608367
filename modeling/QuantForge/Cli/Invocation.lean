import QuantForge.Cli.TradeClose
import QuantForge.Framework.Crowd
import QuantForge.Storage.Runs

namespace QuantForge.Cli

open Live

/-- An order sent for a run: by an invocation on an exchange, in a mode and under
an identity. -/
structure RunOrder where
  runId : String
  exchange : ExchangeId
  mode : ExecutionMode
  identity : RunIdentity
  request : MarketOrderRequest
  deriving DecidableEq

/-- A store's runs, and the orders sent for them. -/
structure Shared where
  runs : RunRecords
  orders : List RunOrder

/-- What a process is started for: a call of the store, a session of the live
engine, or a close. -/
inductive Invocation (σ : Type)
  | createRun (state : BotRunState) (identity : RunIdentity)
  | saveRunState (state : BotRunState)
  | adoptRun (runId : String) (identity : RunIdentity) (executionMode : Option ExecutionMode)
  | trade (cfg : LiveTradeConfig σ)
  | close (ctx : AppContext) (args : TradeCloseArgs)

/-- How far a process has come: before its first call of the store, before a
session creates its run or reads the identity of a run it has read, driving it;
before a close reads that identity, before it sells, and after. -/
inductive Process (σ : Type)
  | begins (invocation : Invocation σ)
  | creating (cfg : LiveTradeConfig σ) (runId : String)
  | resuming (cfg : LiveTradeConfig σ) (runId : String) (existing : BotRunState)
  | driving (cfg : LiveTradeConfig σ) (runState : BotRunState)
  | identifying (ctx : AppContext) (args : TradeCloseArgs) (runState : BotRunState)
  | closing (ctx : AppContext) (args : TradeCloseArgs) (runState : BotRunState)
  | sold (runState : BotRunState)
  | ended

/-- What a session changes of its run from save to save. -/
structure Progress where
  status : RunStatus
  lastProcessedOpenTimeMs : Option Int64
  updatedAtMs : Int64
  stoppedAtMs : Option Int64
  lastError : Option String
  position : PositionState
  deriving DecidableEq

def Progress.apply (progress : Progress) (state : BotRunState) : BotRunState :=
  { state with
    status := progress.status
    lastProcessedOpenTimeMs := progress.lastProcessedOpenTimeMs
    updatedAtMs := progress.updatedAtMs
    stoppedAtMs := progress.stoppedAtMs
    lastError := progress.lastError
    position := progress.position }

/-- What becomes of a process: it dies or a call of it fails, it reads, it writes,
a session sends an order or saves its run, a close sells or books its sale. -/
inductive Choice
  | ends
  | reads (uuid : String)
  | writes (nowMs : Int64) (outcome : WriteOutcome)
  | sends (side : Side) (quantity quoteOrderQty : Option Decimal) (newClientOrderId : Option String)
  | saves (progress : Progress) (outcome : WriteOutcome)
  | sells (rules : SymbolRules) (balances : List AssetBalance) (nowMs : Int64)
  | books (rules : SymbolRules) (order : ExchangeOrder) (nowMs : Int64) (outcome : WriteOutcome)

/-- What a write leaves, and whether it was answered as done. -/
def Shared.write (w : Shared) (outcome : WriteOutcome) (next : Except StorageError RunRecords) :
    Shared × Bool :=
  match next with
  | .error _ => (w, false)
  | .ok runs => ({ w with runs := if outcome.effect then runs else w.runs }, outcome.answer.isOk)

def Shared.send (w : Shared) (order : RunOrder) : Shared := { w with orders := w.orders ++ [order] }

variable {σ : Type}

/-- The first call of a session. -/
def startTrade (cfg : LiveTradeConfig σ) (uuid : String) (runs : RunRecords) : Process σ :=
  match requireAccountForLive cfg with
  | .error _ => .ended
  | .ok () =>
    match cfg.runId with
    | none => .creating cfg s!"qf-{uuid}"
    | some runId =>
      match runs.loadRunState runId with
      | .error _ => .ended
      | .ok none => .creating cfg runId
      | .ok (some existing) =>
        match applyResumeChecks existing cfg with
        | .error _ => .ended
        | .ok () => .resuming cfg runId existing

/-- The second call of a session that resumes a run. -/
def resumeTrade (cfg : LiveTradeConfig σ) (runId : String) (existing : BotRunState)
    (runs : RunRecords) : Process σ :=
  match runs.runIdentity runId with
  | .ok (some recorded) =>
    match applyIdentityCheck runId recorded cfg.identity with
    | .ok () => .driving cfg existing
    | .error _ => .ended
  | _ => .ended

/-- The second call of a session that creates its run. -/
def createTrade (cfg : LiveTradeConfig σ) (runId : String) (nowMs : Int64) (outcome : WriteOutcome)
    (w : Shared) : Shared × Process σ :=
  match w.write outcome (w.runs.createRun (newRun cfg runId nowMs) cfg.identity) with
  | (w, true) => (w, .driving cfg (newRun cfg runId nowMs))
  | (w, false) => (w, .ended)

/-- The run that a close is of. -/
def selectRun (ctx : AppContext) (args : TradeCloseArgs) (runs : RunRecords) :
    Except StorageError (Option BotRunState) :=
  match args.runId with
  | some runId => runs.loadRunState runId
  | none => runs.latestRunForMarket (market ctx args) args.strategyName

/-- The first call of a close. -/
def startClose (ctx : AppContext) (args : TradeCloseArgs) (runs : RunRecords) : Process σ :=
  if ctx.signed then
    match selectRun ctx args runs with
    | .ok (some runState) =>
      match checkRun (market ctx args) runState with
      | .ok () => .identifying ctx args runState
      | .error _ => .ended
    | _ => .ended
  else .ended

/-- The second call of a close. -/
def identifyClose (ctx : AppContext) (args : TradeCloseArgs) (runState : BotRunState)
    (runs : RunRecords) : Process σ :=
  match runs.runIdentity runState.runId with
  | .ok recorded =>
    match checkIdentity ctx runState.runId recorded with
    | .ok () => .closing ctx args runState
    | .error _ => .ended
  | .error _ => .ended

/-- A session's order. -/
def tradeOrder (cfg : LiveTradeConfig σ) (runState : BotRunState) (side : Side)
    (quantity quoteOrderQty : Option Decimal) (newClientOrderId : Option String) : RunOrder where
  runId := runState.runId
  exchange := cfg.market.exchange
  mode := cfg.executionMode
  identity := cfg.identity
  request := ⟨cfg.market.symbol, side, quantity, quoteOrderQty, newClientOrderId⟩

/-- A close's order. -/
def closeOrder (ctx : AppContext) (runState : BotRunState) (request : MarketOrderRequest) :
    RunOrder where
  runId := runState.runId
  exchange := ctx.exchangeId
  mode := .live
  identity := ctx.runIdentity .live
  request := request

/-- One step of a process. -/
def step [DecimalMath] (choice : Choice) (w : Shared) (p : Process σ) :
    Option (Shared × Process σ) :=
  match p, choice with
  | _, .ends => some (w, .ended)
  | .begins (.createRun state identity), .writes _ outcome =>
    some ((w.write outcome (w.runs.createRun state identity)).1, .ended)
  | .begins (.saveRunState state), .writes _ outcome =>
    some ((w.write outcome (w.runs.saveRunState state)).1, .ended)
  | .begins (.adoptRun runId identity executionMode), .writes _ outcome =>
    some ((w.write outcome (w.runs.adoptRun runId identity executionMode)).1, .ended)
  | .begins (.trade cfg), .reads uuid => some (w, startTrade cfg uuid w.runs)
  | .creating cfg runId, .writes nowMs outcome => some (createTrade cfg runId nowMs outcome w)
  | .resuming cfg runId existing, .reads _ => some (w, resumeTrade cfg runId existing w.runs)
  | .driving cfg runState, .sends side quantity quoteOrderQty newClientOrderId =>
    match cfg.executionMode with
    | .dryRun => none
    | .live =>
      some (w.send (tradeOrder cfg runState side quantity quoteOrderQty newClientOrderId),
        .driving cfg runState)
  | .driving cfg runState, .saves progress outcome =>
    some ((w.write outcome (w.runs.saveRunState (progress.apply runState))).1,
      .driving cfg (progress.apply runState))
  | .begins (.close ctx args), .reads _ => some (w, startClose ctx args w.runs)
  | .identifying ctx args runState, .reads _ => some (w, identifyClose ctx args runState w.runs)
  | .closing ctx args runState, .sells rules balances nowMs =>
    match sellRequest args rules balances runState nowMs with
    | .ok (some request) => some (w.send (closeOrder ctx runState request), .sold runState)
    | _ => some (w, .ended)
  | .sold runState, .books rules order nowMs outcome =>
    match soldRun rules order nowMs runState with
    | .ok (some after) => some ((w.write outcome (w.runs.saveRunState after)).1, .ended)
    | _ => some (w, .ended)
  | _, _ => none

/-- Any number of processes on one store. -/
def processes [DecimalMath] : Crowd Shared (Process σ) (Invocation σ) Choice where
  enter := .begins
  step _ := step

end QuantForge.Cli
