import QuantForge.Engine.Live.Execution
import QuantForge.Engine.Live.State

namespace QuantForge.Live

variable {σ : Type}

/-- Where the bootstrap sync starts: after the last bar processed, or the
configured number of bars before now. -/
def bootstrapStart (cfg : LiveTradeConfig σ) (nowMs : Int64) (lastProcessed : Option Int64) :
    Except EngineError Int64 :=
  match lastProcessed with
  | some value => .ok (value + cfg.market.interval.stepMs)
  | none =>
    match Checked.int64 cfg.bootstrapBars with
    | none => .error (.invalidConfig
        s!"bootstrap_bars {cfg.bootstrapBars} does not fit into the timestamp range")
    | some bars =>
      match (Checked.mul cfg.market.interval.stepMs bars).bind fun windowMs =>
          Checked.int64 (nowMs.toInt - windowMs.toInt) with
      | some start => .ok start
      | none => .error (.invalidConfig (s!"bootstrap window overflows: {cfg.bootstrapBars} bars " ++
          s!"of {cfg.market.interval.asStr}"))

/-- What a run carries from bar to bar besides its state. -/
structure Driver (σ : Type) where
  ctx : StrategyContext
  strategy : σ

variable {S : Type} (outside : Outside)

def callback {α : Type} (answer : Except StrategyError α) : Part S α :=
  Prog.ofExcept (answer.mapError fun error => .failed (.strategy error))

/-- Gives a bar to the strategy, at its close and with the position held. -/
def onBar (strategy : Strategy σ) (bar : Candle) (d : Driver σ) :
    Part S (Option TargetPosition × Driver σ) := do
  let state ← Part.runState
  let ctx := { d.ctx with nowMs := bar.closeTimeMs, positionQty := state.position.qty }
  Part.record (.fed bar)
  let (decision, next) ← callback (strategy.onBar ctx bar d.strategy)
  pure (decision, ⟨ctx, next⟩)

def filterClosedCandles (candles : List Candle) : Part S (List Candle) := do
  let nowMs ← Part.nowUtcMs outside
  pure (candles.filter fun candle => candle.closeTimeMs ≤ nowMs)

/-- Replays the closed bars of the bootstrap, without trading; the last decision
remains. -/
def replay (strategy : Strategy σ) :
    List Candle → TargetPosition → Driver σ → Part S (TargetPosition × Driver σ)
  | [], target, d => pure (target, d)
  | bar :: bars, target, d => do
    let (decision, d) ← onBar strategy bar d
    replay strategy bars (decision.getD target) d

/-- Takes up a bar as the last one processed, in memory only. -/
def setLastProcessed (openTimeMs : Option Int64) : Part S Unit := do
  let state ← Part.runState
  let updatedAtMs ← Part.nowUtcMs outside
  Part.setState { state with
    lastProcessedOpenTimeMs := openTimeMs, status := .running, updatedAtMs }

section

variable [CandleStore S] [DecimalMath] (cfg : LiveTradeConfig σ) (rules : SymbolRules)
  (strategy : Strategy σ)

/-- The closed bars of the bootstrap, after a sync of what the run may have
missed. -/
def loadBootstrap (start now : Int64) (state : σ) : Part S (List Candle × Driver σ) := do
  let _ ← Part.ofFeed (DataSync.syncMarketRange outside.toOutside cfg.market start now cfg.batchLimit)
  let nowMs ← Part.nowUtcMs outside
  let run ← Part.runState
  let ctx : StrategyContext := ⟨cfg.market, nowMs, .zero, run.position.qty⟩
  let next ← callback (strategy.onStart ctx state)
  let candles ← Part.loadRecentCandles outside cfg.market cfg.bootstrapBars
  let closed ← filterClosedCandles outside candles
  pure (closed, ⟨ctx, next⟩)

/-- The order of a `bootstrap_enter` run, on the last bar of the bootstrap. -/
def enterBootstrap (bars : List Candle) (target : TargetPosition) : Part S Unit := do
  let state ← Part.runState
  if cfg.bootstrapEnter = true ∧ target ≠ currentTarget state.position then
    match bars.getLast? with
    | some bar => executeTarget outside cfg rules target bar
    | none => pure ()
  else pure ()

/-- A run that had processed no bar starts after the bootstrap. -/
def beginAfter (bars : List Candle) (target : TargetPosition) : Part S Unit := do
  let state ← Part.runState
  if state.lastProcessedOpenTimeMs = none then do
    setLastProcessed outside (bars.getLast?.map (·.openTimeMs))
    enterBootstrap outside cfg rules bars target
    Part.saveRunState outside
  else pure ()

/-- Saves the run as it starts, and loads the bars it warms up with. -/
def warmUp (state : σ) : Part S (List Candle × Driver σ) := do
  Part.saveRunState outside
  let now ← Part.nowUtcMs outside
  let run ← Part.runState
  let start ← Part.orRefuse (bootstrapStart cfg now run.lastProcessedOpenTimeMs)
  loadBootstrap outside cfg strategy start now state

/-- Replays the bootstrap's bars, and begins after them. -/
def bootstrap (bars : List Candle) (d : Driver σ) : Part S (Driver σ) := do
  let run ← Part.runState
  let (target, d) ← replay strategy bars (currentTarget run.position) d
  beginAfter outside cfg rules bars target
  pure d

/-- Executes a decision that differs from the position held. -/
def follow (desired : TargetPosition) (bar : Candle) : Part S Unit := do
  let state ← Part.runState
  if desired ≠ currentTarget state.position then executeTarget outside cfg rules desired bar
  else pure ()

/-- The bar is processed once this is saved. -/
def finishBar (bar : Candle) : Part S Unit := do
  setLastProcessed outside (some bar.openTimeMs)
  Part.saveRunState outside
  Part.modifySummary fun summary => { summary with
    processedBars := summary.processedBars + 1
    lastProcessedOpenTimeMs := some bar.openTimeMs }

def processBar (bar : Candle) (d : Driver σ) : Part S (Driver σ) := do
  let state ← Part.runState
  let (decision, d) ← onBar strategy bar d
  follow outside cfg rules (decision.getD (currentTarget state.position)) bar
  finishBar outside bar
  pure d

/-- Processes the bars in order, past those at or before the last one
processed. -/
def processBars : List Candle → Driver σ → Part S (Driver σ)
  | [], d => pure d
  | bar :: bars, d => do
    let state ← Part.runState
    if state.lastProcessedOpenTimeMs.any (bar.openTimeMs ≤ ·) then processBars bars d
    else do
      let d ← processBar outside cfg rules strategy bar d
      processBars bars d

def syncNew (startMs endMs : Int64) : Part S Unit :=
  if startMs ≤ endMs then do
    let _ ← Part.ofFeed
      (DataSync.syncMarketRange outside.toOutside cfg.market startMs endMs cfg.batchLimit)
    pure ()
  else pure ()

/-- The closed candles behind the last bar processed, after a sync. -/
def loadNew : Part S (List Candle) := do
  let endMs ← Part.nowUtcMs outside
  let state ← Part.runState
  let next := state.lastProcessedOpenTimeMs.map (· + cfg.market.interval.stepMs)
  syncNew outside cfg (next.getD (endMs - cfg.market.interval.stepMs)) endMs
  let candles ← Part.loadCandles outside cfg.market ⟨next, none, none⟩
  filterClosedCandles outside candles

def poll (d : Driver σ) : Part S (Driver σ) := do
  let bars ← loadNew outside cfg
  processBars outside cfg rules strategy bars d

/-- Polls up to the last one, which is the last also where the shutdown signal
interrupts the sleep after `sleeps` others. -/
def polls : Nat → Nat → Driver σ → Part S (Driver σ)
  | sleeps, loops, d => do
    let d ← poll outside cfg rules strategy d
    if cfg.maxLoops.any (· ≤ loops + 1) then pure d
    else
      match sleeps with
      | 0 => pure d
      | sleeps + 1 => polls sleeps (loops + 1) d

/-- The bootstrap, then the poll loop. -/
def runInner (sleeps : Nat) (state : σ) : Part S Unit := do
  let (bars, d) ← warmUp outside cfg strategy state
  let d ← bootstrap outside cfg rules strategy bars d
  let d ← polls outside cfg rules strategy sleeps 0 d
  let _ ← callback (strategy.onFinish d.ctx d.strategy)
  pure ()

end

end QuantForge.Live
