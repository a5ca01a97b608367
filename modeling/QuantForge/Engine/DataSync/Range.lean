import QuantForge.Engine.Error
import QuantForge.Math.Checked

namespace QuantForge

/-- What the clock reads and the exchange and the segment store answer, call
by call. -/
structure Outside where
  now : Nat → Int64
  klines : Nat → KlineRequest → Except ExchangeError (List Candle)
  refresh : Option (Nat → Except StorageError Nat)

/-- A market's data as an engine sees it: the store, how often the clock was
read, the requests sent, and the candles written. -/
structure Feed (S : Type) where
  store : S
  clockReads : Nat
  requests : List KlineRequest
  writes : List Candle
  refreshes : Nat

namespace Feed

variable {S : Type}

def new (store : S) : Feed S := ⟨store, 0, [], [], 0⟩

variable (outside : Outside)

def nowUtcMs : Prog (Feed S) EngineError Int64 := fun w =>
  (.ok (outside.now w.clockReads), { w with clockReads := w.clockReads + 1 })

def fetchKlines (request : KlineRequest) : Prog (Feed S) EngineError (List Candle) := fun w =>
  ((outside.klines w.requests.length request).mapError .exchange,
    { w with requests := w.requests ++ [request] })

/-- Packs the market's segments, which leaves its candles as they are. -/
def refreshSegments (refresh : Nat → Except StorageError Nat) :
    Prog (Feed S) EngineError (Except StorageError Nat) := fun w =>
  (.ok (refresh w.refreshes), { w with refreshes := w.refreshes + 1 })

variable [CandleStore S]

def upsertCandles (market : MarketId) (batch : List Candle) : Prog (Feed S) EngineError Nat :=
  fun w =>
    match CandleStore.upsertCandles market batch w.store with
    | (.ok written, store) => (.ok written, { w with store, writes := w.writes ++ batch })
    | (.error error, store) => (.error (.storage error), { w with store })

def maxOpenTimeMs (market : MarketId) : Prog (Feed S) EngineError (Option Int64) := fun w =>
  ((CandleStore.maxOpenTimeMs market w.store).mapError .storage, w)

end Feed

namespace DataSync

/-- How long after its close a candle is stored. -/
def settleMs : Int64 := 1000

/-- What one range of klines covered. -/
structure SyncRangeOutcome where
  written : Nat
  firstOpenTimeMs : Option Int64
  lastOpenTimeMs : Option Int64
  unsettledFromMs : Option Int64
  deriving DecidableEq

def SyncRangeOutcome.none_ : SyncRangeOutcome := ⟨0, none, none, none⟩

def isSettled (cutoffMs : Int64) (candle : Candle) : Bool :=
  (Checked.add candle.closeTimeMs settleMs).any (· < cutoffMs)

/-- How many of the batch's leading candles had settled by `cutoffMs`. -/
def settledLen (batch : List Candle) (cutoffMs : Int64) : Nat :=
  (batch.takeWhile (isSettled cutoffMs)).length

variable {S : Type} [CandleStore S]

/-- Writes the settled candles of a batch, where there are any. -/
def store (market : MarketId) (settled : List Candle) (outcome : SyncRangeOutcome) :
    Prog (Feed S) EngineError SyncRangeOutcome :=
  match settled.head?, settled.getLast? with
  | some first, some last => do
    let written ← Feed.upsertCandles market settled
    pure { outcome with
      written := outcome.written + written
      firstOpenTimeMs := outcome.firstOpenTimeMs.or (some first.openTimeMs)
      lastOpenTimeMs := some last.openTimeMs }
  | _, _ => pure outcome

def klineRequest (market : MarketId) (cursor endMs : Int64) (batchLimit : UInt16) :
    KlineRequest where
  symbol := market.symbol
  interval := market.interval
  startTimeMs := some cursor
  endTimeMs := some endMs
  limit := some (min batchLimit 1000)

/-- The pages of a range from `cursor` on. -/
def pages (outside : Outside) (market : MarketId) (endMs : Int64) (batchLimit : UInt16)
    (cursor : Int64) (outcome : SyncRangeOutcome) : Prog (Feed S) EngineError SyncRangeOutcome :=
  if _h : cursor ≤ endMs then do
    let cutoffMs ← Feed.nowUtcMs outside
    let batch ← Feed.fetchKlines outside (klineRequest market cursor endMs batchLimit)
    match batch.getLast? with
    | none => pure outcome
    | some lastFetched => do
      let settled := batch.take (settledLen batch cutoffMs)
      let unsettled := batch.drop (settledLen batch cutoffMs)
      let outcome ← store market settled outcome
      match unsettled.head? with
      | some heldBack => pure { outcome with unsettledFromMs := some heldBack.openTimeMs }
      | none =>
        let nextCursor := lastFetched.openTimeMs + market.interval.stepMs
        if _hnext : nextCursor ≤ cursor then pure outcome
        else pages outside market endMs batchLimit nextCursor outcome
  else pure outcome
termination_by (endMs.toInt + 1 - cursor.toInt).toNat
decreasing_by
  have hcursor := Int64.le_iff_toInt_le.mp _h
  have hnext : ¬(lastFetched.openTimeMs + market.interval.stepMs).toInt ≤ cursor.toInt :=
    mt Int64.le_iff_toInt_le.mpr _hnext
  omega

/-- Fetches one range of klines into the store, settled candles only. -/
def syncMarketRange (outside : Outside) (market : MarketId) (startMs endMs : Int64)
    (batchLimit : UInt16) : Prog (Feed S) EngineError SyncRangeOutcome :=
  if endMs < startMs then pure .none_
  else pages outside market endMs batchLimit startMs .none_

open Prog in
/-- A property that sequences keep holds of a range sync once it holds of the
calls it makes. -/
theorem range_built {C : {α : Type} → Prog (Feed S) EngineError α → Prop}
    (hC : Compositional C) {outside : Outside} {market : MarketId} {startMs endMs : Int64}
    {batchLimit : UInt16} (now : C (Feed.nowUtcMs outside))
    (fetch : ∀ cursor,
      C (Feed.fetchKlines outside (klineRequest market cursor endMs batchLimit)))
    (upsert : ∀ market batch, C (Feed.upsertCandles market batch)) :
    C (syncMarketRange outside market startMs endMs batchLimit) := by
  have stores (settled : List Candle) (outcome : SyncRangeOutcome) :
      C (store market settled outcome) := by
    unfold store
    split
    · exact hC.andThen (upsert market settled) fun _ => hC.answer _
    · exact hC.answer _
  have pages_built (cursor : Int64) (outcome : SyncRangeOutcome) :
      C (pages outside market endMs batchLimit cursor outcome) := by
    induction cursor, outcome using pages.induct market endMs with
    | case1 cursor outcome hle ih =>
      rw [pages, dif_pos hle]
      refine hC.andThen now fun cutoffMs => hC.andThen (fetch _) fun batch => ?_
      cases batch.getLast? with
      | none => exact hC.answer outcome
      | some lastFetched =>
        refine hC.andThen (stores _ _) fun outcome => ?_
        cases (batch.drop (settledLen batch cutoffMs)).head? with
        | some heldBack => exact hC.answer _
        | none =>
          by_cases hnext : lastFetched.openTimeMs + market.interval.stepMs ≤ cursor
          · simp only [dif_pos hnext]
            exact hC.answer outcome
          · simp only [dif_neg hnext]
            exact ih lastFetched outcome hnext
    | case2 cursor outcome hgt =>
      rw [pages, dif_neg hgt]
      exact hC.answer outcome
  unfold syncMarketRange
  split_ifs
  · exact hC.answer _
  · exact pages_built startMs .none_

end DataSync

end QuantForge
