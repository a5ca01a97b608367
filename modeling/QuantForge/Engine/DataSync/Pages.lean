import QuantForge.Engine.DataSync.Range
import Mathlib.Data.List.TakeWhile

namespace QuantForge.DataSync

open Prog

/-- A store beside the batches it was given to write, accepted or not. -/
structure Logged (S : Type) where
  store : S
  batches : List (List Candle)

instance {S : Type} [CandleStore S] : CandleStore (Logged S) where
  upsertCandles market batch := fun s =>
    ((CandleStore.upsertCandles market batch s.store).1,
      ⟨(CandleStore.upsertCandles market batch s.store).2, s.batches ++ [batch]⟩)
  loadCandles market query s := CandleStore.loadCandles market query s.store
  loadRecentCandles market limit s := CandleStore.loadRecentCandles market limit s.store
  maxOpenTimeMs market s := CandleStore.maxOpenTimeMs market s.store

/-- One request starts before another. -/
def StartsBefore (a b : KlineRequest) : Prop :=
  ∃ s t, a.startTimeMs = some s ∧ b.startTimeMs = some t ∧ s < t

/-- The candle came with the answer to one of the requests `asked` since `calls`
requests and `reads` readings of the clock, and the clock read `cutoffMs` ahead of it. -/
def CameBy (outside : Outside) (calls reads : Nat) (asked : List KlineRequest) (c : Candle)
    (cutoffMs : Int64) : Prop :=
  ∃ k request page, asked[k]? = some request ∧ outside.klines (calls + k) request = .ok page ∧
    c ∈ page ∧ outside.now (reads + k) = cutoffMs

/-- A candle had settled by a reading of the clock. -/
def HadSettled (c : Candle) (cutoffMs : Int64) : Prop :=
  c.closeTimeMs.toInt + settleMs.toInt < cutoffMs.toInt

/-- The candle had settled by the clock read ahead of the request it came with. -/
def CameSettled {S : Type} (outside : Outside) (w : Feed S) (asked : List KlineRequest)
    (c : Candle) : Prop :=
  ∃ cutoffMs, CameBy outside w.requests.length w.clockReads asked c cutoffMs ∧
    HadSettled c cutoffMs

theorem isSettled_iff {cutoffMs : Int64} {c : Candle} :
    isSettled cutoffMs c = true ↔ HadSettled c cutoffMs := by
  unfold isSettled HadSettled
  cases hadd : Checked.add c.closeTimeMs settleMs with
  | none =>
    simp only [Option.any_none, Bool.false_eq_true, false_iff]
    intro hlt
    have hhigh := Int64.toInt_lt cutoffMs
    have hlow := Int64.le_toInt c.closeTimeMs
    have hsettle : settleMs.toInt = 1000 := by decide
    have hsome : Checked.add c.closeTimeMs settleMs =
        some (Int64.ofInt (c.closeTimeMs.toInt + settleMs.toInt)) := by
      rw [Checked.add, Checked.int64, if_pos (by omega)]
    rw [hadd] at hsome
    cases hsome
  | some sum =>
    rw [Option.any_some, decide_eq_true_eq, Int64.lt_iff_toInt_lt, Checked.add_some.mp hadd]

theorem settled_take (batch : List Candle) (cutoffMs : Int64) :
    batch.take (settledLen batch cutoffMs) = batch.takeWhile (isSettled cutoffMs) :=
  (List.prefix_iff_eq_take.mp (List.takeWhile_prefix _)).symm

theorem settled_drop (batch : List Candle) (cutoffMs : Int64) :
    batch.drop (settledLen batch cutoffMs) = batch.dropWhile (isSettled cutoffMs) := by
  have hsplit : batch.takeWhile (isSettled cutoffMs) ++ batch.dropWhile (isSettled cutoffMs) =
      batch := List.takeWhile_append_dropWhile
  have hdrop := @List.drop_left _ (batch.takeWhile (isSettled cutoffMs))
    (batch.dropWhile (isSettled cutoffMs))
  rwa [hsplit] at hdrop

section

variable {S : Type} [CandleStore S] (outside : Outside) (market : MarketId) (endMs : Int64)
  (batchLimit : UInt16)

/-- What a page of the range does, from the world that its request left. -/
def onPage (cursor : Int64) (outcome : SyncRangeOutcome) (cutoffMs : Int64) (batch : List Candle) :
    Prog (Feed S) EngineError SyncRangeOutcome :=
  match batch.getLast? with
  | none => pure outcome
  | some lastFetched => do
    let outcome ← store market (batch.take (settledLen batch cutoffMs)) outcome
    match (batch.drop (settledLen batch cutoffMs)).head? with
    | some heldBack => pure { outcome with unsettledFromMs := some heldBack.openTimeMs }
    | none =>
      let nextCursor := lastFetched.openTimeMs + market.interval.stepMs
      if nextCursor ≤ cursor then pure outcome
      else pages outside market endMs batchLimit nextCursor outcome

/-- The world after the clock is read and a request is sent. -/
def afterAsking (request : KlineRequest) (w : Feed S) : Feed S :=
  { w with clockReads := w.clockReads + 1, requests := w.requests ++ [request] }

theorem pages_turn {cursor : Int64} (outcome : SyncRangeOutcome) (h : cursor ≤ endMs)
    (w : Feed S) : pages outside market endMs batchLimit cursor outcome w =
      match outside.klines w.requests.length (klineRequest market cursor endMs batchLimit) with
      | .error error =>
        (.error (.exchange error), afterAsking (klineRequest market cursor endMs batchLimit) w)
      | .ok batch =>
        onPage outside market endMs batchLimit cursor outcome (outside.now w.clockReads) batch
          (afterAsking (klineRequest market cursor endMs batchLimit) w) := by
  rw [pages, dif_pos h]
  have hclock : Feed.nowUtcMs outside w =
      (.ok (outside.now w.clockReads), { w with clockReads := w.clockReads + 1 }) := rfl
  rw [seq_ok hclock]
  cases hanswer : outside.klines w.requests.length (klineRequest market cursor endMs batchLimit) with
  | error error =>
    apply seq_error
    simp only [Feed.fetchKlines, hanswer]
    rfl
  | ok batch =>
    rw [seq_ok (a := batch) (v := afterAsking (klineRequest market cursor endMs batchLimit) w)]
    · rfl
    · simp only [Feed.fetchKlines, hanswer]
      rfl

end

/-- What a range has asked for and written since it began. -/
structure Traced {S : Type} (outside : Outside) (began w : Feed (Logged S))
    (asked : List KlineRequest) : Prop where
  requests : w.requests = began.requests ++ asked
  reads : w.clockReads = began.clockReads + asked.length
  rising : asked.Pairwise StartsBefore
  settled : ∃ batches, w.store.batches = began.store.batches ++ batches ∧
    ∀ batch ∈ batches, ∀ c ∈ batch, CameSettled outside began asked c

section

variable {S : Type} {outside : Outside} {began w : Feed (Logged S)}
  {asked : List KlineRequest}

theorem CameSettled.grows {c : Candle} (h : CameSettled outside began asked c)
    (request : KlineRequest) : CameSettled outside began (asked ++ [request]) c := by
  obtain ⟨cutoffMs, ⟨k, found, page, hget, hanswer, hmem, hclock⟩, hsettled⟩ := h
  have hlt : k < asked.length := (List.getElem?_eq_some_iff.mp hget).1
  refine ⟨cutoffMs, ⟨k, found, page, ?_, hanswer, hmem, hclock⟩, hsettled⟩
  rw [List.getElem?_append_left hlt, hget]

/-- A request that starts later than all before it. -/
theorem Traced.ask (h : Traced outside began w asked) {request : KlineRequest}
    (hlater : ∀ r ∈ asked, StartsBefore r request) :
    Traced outside began (afterAsking request w) (asked ++ [request]) := by
  obtain ⟨batches, hbatches, hcame⟩ := h.settled
  refine ⟨?_, ?_, ?_, batches, hbatches, ?_⟩
  · rw [afterAsking, h.requests, List.append_assoc]
  · rw [afterAsking, h.reads, List.length_append, List.length_singleton, Nat.add_assoc]
  · rw [List.pairwise_append]
    refine ⟨h.rising, List.pairwise_singleton _ _, ?_⟩
    intro r hr last hlast
    rw [List.mem_singleton.mp hlast]
    exact hlater r hr
  · intro batch hbatch c hc
    exact (hcame batch hbatch c hc).grows request

theorem Traced.wrote (h : Traced outside began w asked) {v : Feed (Logged S)}
    {batch : List Candle} (hrequests : v.requests = w.requests)
    (hreads : v.clockReads = w.clockReads) (hstore : v.store.batches = w.store.batches ++ [batch])
    (hcame : ∀ c ∈ batch, CameSettled outside began asked c) :
    Traced outside began v asked := by
  obtain ⟨batches, hbatches, hall⟩ := h.settled
  refine ⟨hrequests.trans h.requests, hreads.trans h.reads, h.rising, batches ++ [batch], ?_, ?_⟩
  · rw [hstore, hbatches, List.append_assoc]
  · intro other hother c hc
    rcases List.mem_append.mp hother with hother | hother
    · exact hall other hother c hc
    · rw [List.mem_singleton.mp hother] at hc
      exact hcame c hc

variable [CandleStore S]

theorem upsert_logged (market : MarketId) (batch : List Candle) (w : Feed (Logged S)) :
    (Feed.upsertCandles market batch w).2.requests = w.requests ∧
      (Feed.upsertCandles market batch w).2.clockReads = w.clockReads ∧
      (Feed.upsertCandles market batch w).2.store.batches = w.store.batches ++ [batch] := by
  unfold Feed.upsertCandles
  simp only [CandleStore.upsertCandles]
  cases (CandleStore.upsertCandles market batch w.store.store).1 <;> exact ⟨rfl, rfl, rfl⟩

theorem Traced.stores (h : Traced outside began w asked) (market : MarketId)
    {settled : List Candle} (outcome : SyncRangeOutcome)
    (hcame : ∀ c ∈ settled, CameSettled outside began asked c) :
    Traced outside began (store market settled outcome w).2 asked := by
  cases settled with
  | nil => exact h
  | cons head rest =>
    obtain ⟨last, hlast⟩ : ∃ last, (head :: rest).getLast? = some last :=
      ⟨_, List.getLast?_eq_some_getLast (by simp)⟩
    obtain ⟨hrequests, hreads, hbatches⟩ := upsert_logged market (head :: rest) w
    simp only [store, List.head?_cons, hlast]
    rw [map_run]
    exact h.wrote hrequests hreads hbatches hcame

theorem pages_traced (market : MarketId) (endMs : Int64) (batchLimit : UInt16) (cursor : Int64)
    (outcome : SyncRangeOutcome) (h : Traced outside began w asked)
    (hbefore : ∀ r ∈ asked, ∃ s, r.startTimeMs = some s ∧ s < cursor) :
    ∃ all, Traced outside began (pages outside market endMs batchLimit cursor outcome w).2 all := by
  induction cursor, outcome using pages.induct market endMs generalizing w asked with
  | case2 cursor outcome hgt =>
    rw [pages, dif_neg hgt]
    exact ⟨asked, h⟩
  | case1 cursor outcome hle ih =>
    have hlater : ∀ r ∈ asked, StartsBefore r (klineRequest market cursor endMs batchLimit) := by
      intro r hr
      obtain ⟨s, hs, hlt⟩ := hbefore r hr
      exact ⟨s, cursor, hs, rfl, hlt⟩
    have hasked := h.ask hlater
    rw [pages_turn outside market endMs batchLimit outcome hle w]
    cases hanswer : outside.klines w.requests.length
        (klineRequest market cursor endMs batchLimit) with
    | error error => exact ⟨_, hasked⟩
    | ok batch =>
      simp only [onPage]
      cases hlast : batch.getLast? with
      | none => exact ⟨_, hasked⟩
      | some lastFetched =>
        have hcame : ∀ c ∈ batch.take (settledLen batch (outside.now w.clockReads)),
            CameSettled outside began
              (asked ++ [klineRequest market cursor endMs batchLimit]) c := by
          intro c hc
          refine ⟨outside.now w.clockReads, ⟨asked.length,
            klineRequest market cursor endMs batchLimit, batch, List.getElem?_concat_length, ?_,
            List.mem_of_mem_take hc, ?_⟩, ?_⟩
          · rw [← hanswer, h.requests, List.length_append]
          · rw [h.reads]
          · rw [settled_take] at hc
            exact isSettled_iff.mp (List.mem_takeWhile_imp hc)
        have hstored := hasked.stores market outcome hcame
        rcases hstore : store market (batch.take (settledLen batch (outside.now w.clockReads)))
          outcome (afterAsking (klineRequest market cursor endMs batchLimit) w) with ⟨answer, v⟩
        rw [hstore] at hstored
        cases answer with
        | error e =>
          simp only [seq_error hstore]
          exact ⟨_, hstored⟩
        | ok o =>
          simp only [seq_ok hstore]
          cases (batch.drop (settledLen batch (outside.now w.clockReads))).head? with
          | some heldBack => exact ⟨_, hstored⟩
          | none =>
            simp only
            split_ifs with hnext
            · exact ⟨_, hstored⟩
            · apply ih lastFetched o hnext hstored
              intro r hr
              have hcursor : cursor < lastFetched.openTimeMs + market.interval.stepMs :=
                Int64.not_le.mp hnext
              rcases List.mem_append.mp hr with hr | hr
              · obtain ⟨s, hs, hlt⟩ := hbefore r hr
                exact ⟨s, hs, Int64.lt_trans hlt hcursor⟩
              · rw [List.mem_singleton.mp hr]
                exact ⟨cursor, rfl, hcursor⟩

/-- Whatever the exchange and the clock answer, a range asks a finite number of
times, each time from a later start, and writes only candles that had settled. -/
theorem range_traced (outside : Outside) (market : MarketId) (startMs endMs : Int64)
    (batchLimit : UInt16) (w : Feed (Logged S)) :
    ∃ asked, Traced outside w (syncMarketRange outside market startMs endMs batchLimit w).2
      asked := by
  have hstart : Traced outside w w [] :=
    ⟨by simp, rfl, List.Pairwise.nil, [], by simp, by simp⟩
  unfold syncMarketRange
  split_ifs with hempty
  · exact ⟨[], hstart⟩
  · exact pages_traced market endMs batchLimit startMs .none_ hstart (by simp)

end

end QuantForge.DataSync
