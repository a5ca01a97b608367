import QuantForge.Ports

namespace QuantForge

/-- The newest of the open times that are held, if any is. -/
structure IsNewest (held : Int64 → Prop) (newest : Option Int64) : Prop where
  none_held : newest = none → ∀ time, ¬held time
  some_held {t : Int64} : newest = some t → held t
  latest {t time : Int64} : newest = some t → held time → time ≤ t

/-- What every candle store promises of the open times it holds: a write adds
its candles' or changes nothing, and whether it is refused does not depend on
what the store holds. -/
class LawfulCandleStore (S : Type) [CandleStore S] where
  holds : S → Int64 → Prop
  upsert_same (market : MarketId) (batch : List Candle) (s t : S) :
    (CandleStore.upsertCandles market batch s).1 = (CandleStore.upsertCandles market batch t).1
  upsert_ok {market : MarketId} {batch : List Candle} {s t : S} {written : Nat} :
    CandleStore.upsertCandles market batch s = (.ok written, t) →
      ∀ time, holds t time ↔ holds s time ∨ ∃ c ∈ batch, c.openTimeMs = time
  upsert_error {market : MarketId} {batch : List Candle} {s t : S} {error : StorageError} :
    CandleStore.upsertCandles market batch s = (.error error, t) → t = s
  newest (market : MarketId) (s : S) :
    ∃ newest, CandleStore.maxOpenTimeMs market s = .ok newest ∧ IsNewest (holds s) newest

/-- A store that serves its newest candles in the order of their open times. -/
class OrderedCandleStore (S : Type) [CandleStore S] : Prop where
  recent_rising {market : MarketId} {limit : Nat} {s : S} {candles : List Candle} :
    CandleStore.loadRecentCandles market limit s = .ok candles →
      candles.Pairwise fun a b => a.openTimeMs < b.openTimeMs

/-- A store that holds of each open time the candle written last, and refuses a batch
with a candle whose segment window cannot be written. -/
class HoldingCandleStore (S : Type) [CandleStore S] where
  has : S → MarketId → Candle → Prop
  windowed {market : MarketId} {batch : List Candle} {s t : S} {count : Nat} :
    CandleStore.upsertCandles market batch s = (.ok count, t) →
      ∀ c ∈ batch, ∃ window, Segments.window market.interval c.openTimeMs = some window
  written {market : MarketId} {batch : List Candle} {s t : S} {count : Nat} :
    CandleStore.upsertCandles market batch s = (.ok count, t) →
      (batch.Pairwise fun a b => a.openTimeMs ≠ b.openTimeMs) → ∀ c ∈ batch, has t market c
  kept {market : MarketId} {batch : List Candle} {s t : S} {count : Nat} {c : Candle} :
    CandleStore.upsertCandles market batch s = (.ok count, t) → has s market c →
      (∀ d ∈ batch, d.openTimeMs ≠ c.openTimeMs) → has t market c

theorem IsNewest.unique {held : Int64 → Prop} {a b : Option Int64} (ha : IsNewest held a)
    (hb : IsNewest held b) : a = b := by
  cases a with
  | none =>
    cases b with
    | none => rfl
    | some u => exact absurd (hb.some_held rfl) (ha.none_held rfl u)
  | some t =>
    cases b with
    | none => exact absurd (ha.some_held rfl) (hb.none_held rfl t)
    | some u =>
      have below := Int64.le_iff_toInt_le.mp (hb.latest rfl (ha.some_held rfl))
      have above := Int64.le_iff_toInt_le.mp (ha.latest rfl (hb.some_held rfl))
      rw [Int64.toInt_inj.mp (le_antisymm below above)]

end QuantForge
