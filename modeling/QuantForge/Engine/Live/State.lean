import QuantForge.Engine.Live.World

namespace QuantForge.Live

variable {σ : Type}

/-- The target a position is already at. -/
def currentTarget (position : PositionState) : TargetPosition :=
  if position.isOpen then .longAllIn else .flat

/-- A live run is recorded with the account behind its credentials. -/
def requireAccountForLive (cfg : LiveTradeConfig σ) : Except EngineError Unit :=
  if cfg.executionMode = .live ∧ cfg.identity.account = none then
    .error (.invalidConfig ("a live run records the account behind its credentials, but this " ++
      "identity carries none; refusing to start or resume it"))
  else .ok ()

def identityErrorText : ModelError → String
  | .identityMismatch subject recorded current =>
    s!"{subject} was recorded as {recorded}, but this invocation is {current}"
  | _ => "the run's environment and account were never verified; adopt it with `quantforge " ++
    "store adopt-run`, or start a new run"

/-- A run is driven only under the identity that recorded it. -/
def applyIdentityCheck (runId : String) (recorded current : RunIdentity) :
    Except EngineError Unit :=
  (recorded.matches_ current).mapError fun error =>
    .invalidConfig s!"run {runId}: {identityErrorText error}; refusing to resume"

def marketText (market : MarketId) : String :=
  s!"{market.exchange.asStr} {market.symbol.name} {market.interval.asStr}"

/-- A resumed run must be of this invocation's market, strategy and execution
mode. -/
def applyResumeChecks (existing : BotRunState) (cfg : LiveTradeConfig σ) :
    Except EngineError Unit :=
  if existing.market ≠ cfg.market then
    .error (.invalidConfig (s!"run {existing.runId} was recorded for market " ++
      s!"{marketText existing.market}, but this invocation targets {marketText cfg.market}; " ++
      "refusing to resume"))
  else if existing.strategyName ≠ cfg.strategy.strategyName then
    .error (.invalidConfig (s!"run {existing.runId} was recorded with strategy " ++
      s!"{existing.strategyName}, but this invocation uses {cfg.strategy.strategyName}; " ++
      "refusing to resume"))
  else if existing.strategyConfig ≠ cfg.strategy.json then
    .error (.invalidConfig (s!"run {existing.runId} was recorded with strategy config " ++
      s!"{existing.strategyConfig}, but this invocation uses {cfg.strategy.json}; " ++
      "refusing to resume so its position is not driven by different parameters"))
  else if existing.executionMode ≠ cfg.executionMode then
    .error (.invalidConfig (s!"run {existing.runId} was recorded in " ++
      s!"{existing.executionMode.asStr} mode, but this invocation is " ++
      s!"{cfg.executionMode.asStr} mode; refusing to resume so a " ++
      s!"{existing.executionMode.asStr} position cannot leak into {cfg.executionMode.asStr} " ++
      "trading"))
  else .ok ()

/-- A new run, flat and with no bar processed. -/
def newRun (cfg : LiveTradeConfig σ) (runId : String) (nowMs : Int64) : BotRunState where
  runId
  market := cfg.market
  strategyName := cfg.strategy.strategyName
  strategyConfig := cfg.strategy.json
  executionMode := cfg.executionMode
  status := .starting
  lastProcessedOpenTimeMs := none
  startedAtMs := nowMs
  updatedAtMs := nowMs
  stoppedAtMs := none
  lastError := none
  position := .flat

variable {S : Type} (outside : Outside) (cfg : LiveTradeConfig σ)

/-- The recorded run, where this invocation may resume it. -/
def resume (runId : String) (existing : BotRunState) : Part S BotRunState := do
  Part.orRefuse (applyResumeChecks existing cfg)
  match ← Part.readRun outside runId with
  | none => Part.refuse (.invalidState
      s!"run {runId} has no identity record; refusing to resume")
  | some row => do
    Part.orRefuse (applyIdentityCheck runId row.identity cfg.identity)
    pure existing

def create (runId : String) : Part S BotRunState := do
  let nowMs ← Part.nowUtcMs outside
  let state := newRun cfg runId nowMs
  Part.createRun outside state cfg.identity
  pure state

def loadOrCreateRunState : Part S BotRunState := do
  Part.orRefuse (requireAccountForLive cfg)
  match cfg.runId with
  | none => do
    let id ← Part.newUuid outside
    create outside cfg s!"qf-{id}"
  | some runId => do
    match ← Part.readRun outside runId with
    | some row => resume outside cfg runId row.state
    | none => create outside cfg runId

end QuantForge.Live
