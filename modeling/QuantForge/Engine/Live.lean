import QuantForge.Engine.Live.Runner
import QuantForge.Framework.Machine

namespace QuantForge.Live

def codeText : Option Int64 → String
  | some code => s!"Some({code})"
  | none => "None"

def engineErrorText : EngineError → String
  | .noCandles => "no candles provided"
  | .invalidConfig message => s!"invalid configuration: {message}"
  | .invalidState message => s!"invalid state: {message}"
  | .overflow what => s!"decimal overflow computing {what}"
  | .strategy source => source.message
  | .exchange (.transport _) => "transport error"
  | .exchange (.api _ code message) =>
    s!"api error: code={codeText code} message={message}"
  | .exchange .missingCredentials => "missing credentials"
  | .exchange (.invalidResponse message) => s!"invalid response: {message}"
  | .exchange (.invalidRequest message) => s!"invalid request: {message}"
  | .storage source => source.toText

section

variable {σ S : Type} (outside : Outside)

/-- Saves a run that ended as stopped, and reports it. -/
def stopRun : Part S LiveTradeSummary := do
  let state ← Part.runState
  let updatedAtMs ← Part.nowUtcMs outside
  Part.setState { state with status := .stopped, updatedAtMs, stoppedAtMs := some updatedAtMs }
  Part.saveRunState outside
  Part.modifySummary fun summary => { summary with
    runId := state.runId, lastProcessedOpenTimeMs := state.lastProcessedOpenTimeMs }
  fun w => (.ok w.summary, w)

/-- Saves a run that an error ended as failed, and returns the error. -/
def failRun (error : EngineError) : Part S LiveTradeSummary := do
  let state ← Part.runState
  let updatedAtMs ← Part.nowUtcMs outside
  Part.setState { state with
    status := .failed
    updatedAtMs
    lastError := some (engineErrorText error)
    stoppedAtMs := some updatedAtMs }
  Part.saveRunState outside
  Part.refuse error

/-- Ends a run as it came to its end; a panic leaves nothing to be saved. -/
def ending (inner : Part S Unit) : Part S LiveTradeSummary := fun w =>
  match inner w with
  | (.ok (), v) => stopRun outside v
  | (.error (.failed error), v) => failRun outside error v
  | (.error (.panicked panic), v) => (.error (.panicked panic), v)

/-- Takes up a run with an empty summary. -/
def takeUp (state : BotRunState) : Part S Unit := fun w =>
  (.ok (), { w with state, summary := ⟨"", 0, 0, 0, none⟩ })

variable [CandleStore S] [DecimalMath] (cfg : LiveTradeConfig σ)

/-- A run from its record to its last save. -/
def drive (rules : SymbolRules) (sleeps : Nat) : Part S LiveTradeSummary := do
  let (strategy, state) ← callback cfg.strategy.build
  ending outside (runInner outside cfg rules strategy sleeps state)

/-- One session of a live engine. -/
def run (sleeps : Nat) : Part S LiveTradeSummary := do
  let state ← loadOrCreateRunState outside cfg
  takeUp state
  let rules ← Part.fetchSymbolRules outside
  drive outside cfg rules sleeps

/-- Session after session of one config, each for a number of polls; a panic
ends its session as an error does. -/
def sessions : Machine (World S) Nat Halt where
  step w sleeps := ((run outside cfg sleeps w).1.map fun _ => (), (run outside cfg sleeps w).2)

end

/-- Market orders of at least ten, in whole units. -/
def wholeRules : SymbolRules where
  symbol := .btcUsdt
  baseAsset := "BTC"
  quoteAsset := "USDT"
  minQty := some (.ofUInt32 10)
  maxQty := none
  stepSize := some (.ofUInt32 1)
  marketMinQty := none
  marketMaxQty := none
  marketStepSize := none
  minNotional := none
  tickSize := none

def sampleMarket : MarketId := ⟨.binanceSpot, .btcUsdt, .m1⟩

def sampleBar (openTimeMs : Int64) : Candle :=
  ⟨openTimeMs, openTimeMs + 59999, .ofUInt32 1, .ofUInt32 1, .ofUInt32 1, .ofUInt32 1, .ofUInt32 1, some 1⟩

/-- A filled buy of `qty`, of which the venue keeps `fee`. -/
def filledBuy (qty fee : Decimal) : ExchangeOrder where
  symbol := sampleMarket.symbol
  side := .buy
  orderType := "MARKET"
  status := .filled
  orderId := none
  clientOrderId := none
  requestedQty := none
  requestedQuoteQty := some (.ofUInt32 10)
  executedQty := some qty
  cumulativeQuoteQty := some (.ofUInt32 10)
  avgPrice := some (.ofUInt32 1)
  transactTimeMs := none
  fills := some [⟨.ofUInt32 1, qty, fee, some "BTC", none⟩]

/-- A venue that fills every order, and a journal that keeps every write. -/
def filling (order : ExchangeOrder) : Outside where
  now _ := 1000000
  klines _ _ := .ok []
  refresh := none
  signed := true
  symbolRules _ := .ok wholeRules
  balances _ := .ok [⟨"BTC", .ofUInt32 100, .zero⟩]
  submit _ _ := .answered order
  write _ := .done
  read _ := none
  uuid _ := "0123456789abcdef0123456789abcdef"
  meanwhile _ := []
  infoEnabled := true

/-- A strategy that asks for the same target at every bar. -/
def always (target : TargetPosition) : StrategyConfig Unit where
  strategyName := "sma_cross"
  json := ""
  build := .ok (⟨fun _ s => .ok s, fun _ _ s => .ok (some target, s), fun _ s => .ok s⟩, ())

def sampleConfig : LiveTradeConfig Unit where
  market := sampleMarket
  strategy := always .longAllIn
  executionMode := .live
  identity := .recorded none (some PositionKey.solUsdt.account.venueAccountId)
  quoteOrderQty := .ofUInt32 10
  bootstrapBars := 10
  bootstrapEnter := false
  batchLimit := 1000
  runId := some "run"
  maxLoops := some 1

/-- A flat run over a store, not yet recorded. -/
def freshWorld {S : Type} (store : S) : World S where
  runs _ := none
  state := newRun sampleConfig "run" 0
  log := []
  feed := .new store
  summary := ⟨"", 0, 0, 0, none⟩
  calls := 0

end QuantForge.Live
