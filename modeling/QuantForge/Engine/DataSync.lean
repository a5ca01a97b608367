import QuantForge.Engine.DataSync.Range

namespace QuantForge

structure DataSyncConfig where
  market : MarketId
  startTimeMs : Option Int64
  endTimeMs : Option Int64
  batchLimit : UInt16
  follow : Bool
  maxLoops : Option Nat

structure DataSyncSummary where
  iterations : Nat
  written : Nat
  firstSyncedOpenTimeMs : Option Int64
  lastOpenTimeMs : Option Int64
  segmentsBuilt : Nat
  deriving DecidableEq

namespace DataSync

def initialStartTimeMs (cfg : DataSyncConfig) (nowMs : Int64) : Int64 := cfg.startTimeMs.getD nowMs

def effectiveEndTimeMs (cfg : DataSyncConfig) (nowMs : Int64) : Int64 :=
  match cfg.endTimeMs with
  | some endTimeMs => min endTimeMs nowMs
  | none => nowMs

/-- Whether a bounded sync ended short of its end with candles missing: not
when the range left over starts at a candle held back only because it had not
settled yet. -/
def isUncovered (cfg : DataSyncConfig) (nextStartTimeMs lastEffectiveEndMs : Int64)
    (unsettledFromMs : Option Int64) : Bool :=
  cfg.endTimeMs.isSome && decide (nextStartTimeMs ≤ lastEffectiveEndMs) &&
    unsettledFromMs != some nextStartTimeMs

def shouldContinue (cfg : DataSyncConfig) (nextStartTimeMs : Int64) (loops : Nat) : Bool :=
  if cfg.maxLoops.any (· ≤ loops) then false
  else
    match cfg.endTimeMs with
    | none => true
    | some endTimeMs => cfg.follow && decide (nextStartTimeMs ≤ endTimeMs)

/-- A sync between two iterations. -/
structure Progress where
  summary : DataSyncSummary
  loops : Nat
  nextStartTimeMs : Int64
  lastEffectiveEndMs : Int64
  unsettledFromMs : Option Int64
  refreshed : Bool
  deriving DecidableEq

/-- Nothing synced yet; the first iteration sets the end. -/
def Progress.start (startTimeMs : Int64) : Progress :=
  ⟨⟨0, 0, none, none, 0⟩, 0, startTimeMs, 0, none, false⟩

variable {S : Type} [CandleStore S] (outside : Outside) (cfg : DataSyncConfig)

/-- Packs the market's segments after the first pass and after every pass that
wrote candles; the dirty marks of a failed refresh remain. -/
def refreshPass (written : Nat) (p : Progress) : Prog (Feed S) EngineError Progress :=
  match outside.refresh with
  | none => pure p
  | some refresh =>
    if 0 < written || !p.refreshed then do
      match ← Feed.refreshSegments refresh with
      | .ok built => pure { p with
          refreshed := true
          summary := { p.summary with segmentsBuilt := p.summary.segmentsBuilt + built } }
      | .error _ => pure { p with refreshed := false }
    else pure p

/-- Takes up what a range sync covered, and moves the next start behind the
newest stored candle. -/
def recordRange (outcome : SyncRangeOutcome) (p : Progress) : Prog (Feed S) EngineError Progress := do
  let lastOpenTimeMs ← Feed.maxOpenTimeMs cfg.market
  let p ← refreshPass outside outcome.written { p with
    summary := { p.summary with
      written := p.summary.written + outcome.written
      firstSyncedOpenTimeMs := p.summary.firstSyncedOpenTimeMs.or outcome.firstOpenTimeMs
      lastOpenTimeMs }
    unsettledFromMs := outcome.unsettledFromMs }
  match lastOpenTimeMs with
  | some maxOpenTimeMs => pure { p with
      nextStartTimeMs := max p.nextStartTimeMs (maxOpenTimeMs + cfg.market.interval.stepMs) }
  | none => pure p

/-- Fetches from the next start to the end. -/
def syncPass (endTimeMs : Int64) (p : Progress) : Prog (Feed S) EngineError Progress := do
  let outcome ← syncMarketRange outside cfg.market p.nextStartTimeMs endTimeMs cfg.batchLimit
  recordRange outside cfg outcome p

/-- Syncs up to `endTimeMs`, or waits where the next start lies behind it. -/
def syncOrWait (endTimeMs : Int64) (p : Progress) : Prog (Feed S) EngineError Progress :=
  if p.nextStartTimeMs ≤ endTimeMs then
    syncPass outside cfg endTimeMs { p with lastEffectiveEndMs := endTimeMs }
  else pure { p with lastEffectiveEndMs := endTimeMs }

/-- One iteration of the sync. -/
def iteration (p : Progress) : Prog (Feed S) EngineError Progress := do
  let nowMs ← Feed.nowUtcMs outside
  let p ← syncOrWait outside cfg (effectiveEndTimeMs cfg nowMs) p
  pure { p with
    loops := p.loops + 1
    summary := { p.summary with iterations := p.loops + 1 } }

/-- Iterations up to the last one, which is the last also where the shutdown
signal interrupts the sleep after `sleeps` others. -/
def iterations : Nat → Progress → Prog (Feed S) EngineError Progress
  | sleeps, p => do
    let p ← iteration outside cfg p
    if shouldContinue cfg p.nextStartTimeMs p.loops then
      match sleeps with
      | 0 => pure p
      | sleeps + 1 => iterations sleeps p
    else pure p

/-- The summary of a sync, and whether it warns of an uncovered range. -/
def run (sleeps : Nat) : Prog (Feed S) EngineError (DataSyncSummary × Bool) := do
  let nowMs ← Feed.nowUtcMs outside
  let p ← iterations outside cfg sleeps (.start (initialStartTimeMs cfg nowMs))
  pure (p.summary, isUncovered cfg p.nextStartTimeMs p.lastEffectiveEndMs p.unsettledFromMs)

end DataSync

end QuantForge
