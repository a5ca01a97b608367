import QuantForge.Model.Market

namespace QuantForge

/-- The position a strategy asks for. -/
inductive TargetPosition
  | flat
  | longAllIn
  deriving DecidableEq

inductive ExecutionMode
  | dryRun
  | live
  deriving DecidableEq

def ExecutionMode.asStr : ExecutionMode → String
  | .dryRun => "dry_run"
  | .live => "live"

inductive RunStatus
  | starting
  | running
  | stopped
  | failed
  deriving DecidableEq

/-- One closed round trip of a candle strategy on Spot. -/
structure ClosedTrade where
  symbol : Symbol
  entryTimeMs : Int64
  exitTimeMs : Int64
  entryPrice : Decimal
  exitPrice : Decimal
  qty : Decimal
  grossQuotePnl : Decimal
  entryOrderId : Option VenueOrderId
  exitOrderId : Option VenueOrderId
  deriving DecidableEq

/-- The position a run holds, with what is known of its entry. -/
structure PositionState where
  qty : Decimal
  entryPrice : Option Decimal
  entryTimeMs : Option Int64
  entryOrderId : Option VenueOrderId
  deriving DecidableEq

namespace PositionState

def flat : PositionState := ⟨.zero, none, none, none⟩

def isOpen (p : PositionState) : Bool := Decimal.lt .zero p.qty

end PositionState

/-- A run as its journal records it. -/
structure BotRunState where
  runId : String
  market : MarketId
  strategyName : String
  strategyConfig : String
  executionMode : ExecutionMode
  status : RunStatus
  lastProcessedOpenTimeMs : Option Int64
  startedAtMs : Int64
  updatedAtMs : Int64
  stoppedAtMs : Option Int64
  lastError : Option String
  position : PositionState
  deriving DecidableEq

end QuantForge
