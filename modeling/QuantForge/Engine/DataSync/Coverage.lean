import QuantForge.Engine.DataSync
import QuantForge.Storage.CandleStore

namespace QuantForge.DataSync

open Prog LawfulCandleStore

section

variable {S : Type} [CandleStore S] [LawfulCandleStore S]

/-- A feed that began on the store `s` and has written what it says. -/
def Began (s : S) (w : Feed S) : Prop :=
  ∀ t, holds w.store t ↔ holds s t ∨ ∃ c ∈ w.writes, c.openTimeMs = t

/-- Feeds of one history, on two stores. -/
structure SameCalls (s t : S) (v w : Feed S) : Prop where
  clockReads : v.clockReads = w.clockReads
  requests : v.requests = w.requests
  writes : v.writes = w.writes
  refreshes : v.refreshes = w.refreshes
  left : Began s v
  right : Began t w

/-- Everything the store held is no newer than something written. -/
def Covered (s : S) (writes : List Candle) : Prop :=
  ∀ t, holds s t → ∃ c ∈ writes, t ≤ c.openTimeMs

/-- Feeds of one history whose writes reach past both stores. -/
def SameReach (s t : S) (v w : Feed S) : Prop :=
  SameCalls s t v w ∧ Covered s v.writes ∧ Covered t v.writes

theorem Covered.append {s : S} {writes more : List Candle} (h : Covered s writes) :
    Covered s (writes ++ more) := by
  intro t ht
  obtain ⟨c, hc, hle⟩ := h t ht
  exact ⟨c, List.mem_append_left more hc, hle⟩

variable {outside : Outside} {s t : S}

omit [LawfulCandleStore S] in
theorem upsert_answers {market : MarketId} {batch : List Candle} {w v : Feed S} {written : Nat}
    (hrun : Feed.upsertCandles market batch w = (.ok written, v)) :
    CandleStore.upsertCandles market batch w.store = (.ok written, v.store) ∧
      v.writes = w.writes ++ batch := by
  unfold Feed.upsertCandles at hrun
  rcases hupsert : CandleStore.upsertCandles market batch w.store with ⟨answer, next⟩
  cases answer with
  | error error => simp [hupsert] at hrun
  | ok count =>
    simp only [hupsert, Prod.mk.injEq, Except.ok.injEq] at hrun
    rw [← hrun.1, ← hrun.2]
    exact ⟨rfl, rfl⟩

theorem began_upsert {market : MarketId} {batch : List Candle} {w v : Feed S} {written : Nat}
    (h : Began s w) (hrun : Feed.upsertCandles market batch w = (.ok written, v)) :
    Began s v := by
  obtain ⟨hupsert, hwrites⟩ := upsert_answers hrun
  intro time
  have law := upsert_ok hupsert time
  simp only [law, h time, hwrites, List.mem_append, or_and_right, exists_or, or_assoc]

theorem sameCalls_now : Respects (SameCalls s t) (Feed.nowUtcMs outside) := by
  intro v w h
  refine ⟨?_, ?_, h.requests, h.writes, h.refreshes, h.left, h.right⟩
  · simp only [Feed.nowUtcMs, h.clockReads]
  · simp only [Feed.nowUtcMs, h.clockReads]

theorem sameCalls_fetch (request : KlineRequest) :
    Respects (SameCalls s t) (Feed.fetchKlines outside request) := by
  intro v w h
  refine ⟨?_, h.clockReads, ?_, h.writes, h.refreshes, h.left, h.right⟩
  · simp only [Feed.fetchKlines, h.requests]
  · simp only [Feed.fetchKlines, h.requests]

theorem sameCalls_refresh (refresh : Nat → Except StorageError Nat) :
    Respects (SameCalls s t) (Feed.refreshSegments refresh) := by
  intro v w h
  refine ⟨?_, h.clockReads, h.requests, h.writes, ?_, h.left, h.right⟩
  · simp only [Feed.refreshSegments, h.refreshes]
  · simp only [Feed.refreshSegments, h.refreshes]

/-- A write goes the same way on both stores. -/
theorem sameCalls_upsert (market : MarketId) (batch : List Candle) :
    Respects (SameCalls s t) (Feed.upsertCandles market batch) := by
  intro v w h
  have same := upsert_same market batch v.store w.store
  rcases hv : CandleStore.upsertCandles market batch v.store with ⟨answer, next⟩
  rcases hw : CandleStore.upsertCandles market batch w.store with ⟨answer', next'⟩
  rw [hv, hw] at same
  simp only at same
  subst same
  cases answer with
  | error error =>
    have hnext := upsert_error hv
    have hnext' := upsert_error hw
    simp only [Feed.upsertCandles, hv, hw, hnext, hnext', true_and]
    exact h
  | ok count =>
    have left : Feed.upsertCandles market batch v =
        (.ok count, { v with store := next, writes := v.writes ++ batch }) := by
      simp only [Feed.upsertCandles, hv]
    have right : Feed.upsertCandles market batch w =
        (.ok count, { w with store := next', writes := w.writes ++ batch }) := by
      simp only [Feed.upsertCandles, hw]
    rw [left, right]
    refine ⟨rfl, h.clockReads, h.requests, ?_, h.refreshes, began_upsert h.left left,
      began_upsert h.right right⟩
    simp only [h.writes]

theorem covered_upsert (market : MarketId) (batch : List Candle) :
    Keeps (fun w : Feed S => Covered s w.writes) (Feed.upsertCandles market batch) := by
  intro w h
  unfold Feed.upsertCandles
  rcases CandleStore.upsertCandles market batch w.store with ⟨answer, next⟩
  cases answer with
  | error error => exact h
  | ok count => exact h.append

theorem sameReach_range (market : MarketId) (startMs endMs : Int64) (batchLimit : UInt16) :
    Respects (SameReach s t) (syncMarketRange outside market startMs endMs batchLimit) := by
  have calls : Respects (SameCalls s t) (syncMarketRange outside market startMs endMs batchLimit) :=
    range_built (respects_compositional _) sameCalls_now (fun _ => sameCalls_fetch _)
      sameCalls_upsert
  have covers (u : S) : Keeps (fun w : Feed S => Covered u w.writes)
      (syncMarketRange outside market startMs endMs batchLimit) :=
    range_built (keeps_compositional _) (fun _ h => h) (fun _ _ h => h) covered_upsert
  apply respects_and calls
  intro v w _ h
  exact ⟨covers s v h.1, covers t v h.2⟩

/-- Some of the candles opens at `t`. -/
def WrittenAt (writes : List Candle) (t : Int64) : Prop := ∃ c ∈ writes, c.openTimeMs = t

/-- What a summary says of the candles written: it names the first one and the
newest one. -/
structure Ranges (summary : DataSyncSummary) (writes : List Candle) : Prop where
  first : summary.firstSyncedOpenTimeMs = writes.head?.map (·.openTimeMs)
  last : IsNewest (WrittenAt writes) summary.lastOpenTimeMs

/-- The newest stored candle is one that was written once the writes reach
past the store, and only then. -/
theorem newest_written {w : Feed S} {newest : Option Int64} (began : Began s w)
    (h : IsNewest (holds w.store) newest) :
    IsNewest (WrittenAt w.writes) newest ↔ Covered s w.writes := by
  constructor
  · intro hwritten t ht
    have held : holds w.store t := (began t).mpr (.inl ht)
    cases newest with
    | none => exact absurd held (h.none_held rfl t)
    | some u =>
      obtain ⟨c, hc, hopen⟩ := hwritten.some_held rfl
      exact ⟨c, hc, hopen ▸ h.latest rfl held⟩
  · intro covered
    refine ⟨?_, ?_, ?_⟩
    · intro hnone t ht
      exact h.none_held hnone t ((began t).mpr (.inr ht))
    · intro t hsome
      rcases (began t).mp (h.some_held hsome) with hs | hwritten
      · obtain ⟨c, hc, hle⟩ := covered t hs
        have below : c.openTimeMs ≤ t := h.latest hsome ((began _).mpr (.inr ⟨c, hc, rfl⟩))
        rw [Int64.le_iff_toInt_le] at hle below
        exact ⟨c, hc, Int64.toInt_inj.mp (le_antisymm below hle)⟩
      · exact hwritten
    · intro t time hsome hwritten
      exact h.latest hsome ((began time).mpr (.inr hwritten))

theorem sameReach_newest (market : MarketId) :
    Respects (SameReach s t) (Feed.maxOpenTimeMs market) := by
  intro v w h
  obtain ⟨calls, left, right⟩ := h
  obtain ⟨a, ha, hnewest⟩ := newest market v.store
  obtain ⟨b, hb, hnewest'⟩ := newest market w.store
  have first := (newest_written calls.left hnewest).mpr left
  have second := (newest_written calls.right hnewest').mpr (calls.writes ▸ right)
  rw [← calls.writes] at second
  refine ⟨?_, calls, left, right⟩
  simp only [Feed.maxOpenTimeMs, ha, hb, first.unique second]

variable (outside) in
theorem sameReach_refresh (written : Nat) (p : Progress) :
    Respects (SameReach s t) (refreshPass outside written p) := by
  have hC := respects_compositional (E := EngineError) (SameReach (S := S) s t)
  unfold refreshPass
  cases outside.refresh with
  | none => exact hC.answer p
  | some refresh =>
    simp only
    split_ifs
    · refine hC.andThen ?_ fun answered => ?_
      · exact respects_and (sameCalls_refresh refresh) fun _ _ _ h => h
      · cases answered <;> exact hC.answer _
    · exact hC.answer p

variable (outside) in
theorem sameReach_record (cfg : DataSyncConfig) (outcome : SyncRangeOutcome) (p : Progress) :
    Respects (SameReach s t) (recordRange outside cfg outcome p) := by
  have hC := respects_compositional (E := EngineError) (SameReach (S := S) s t)
  refine hC.andThen (sameReach_newest _) fun newest => ?_
  refine hC.andThen (sameReach_refresh outside _ _) fun p => ?_
  cases newest <;> exact hC.answer _

variable (outside) in
theorem sameReach_iteration (cfg : DataSyncConfig) (p : Progress) :
    Respects (SameReach s t) (iteration outside cfg p) := by
  have hC := respects_compositional (E := EngineError) (SameReach (S := S) s t)
  refine hC.andThen (respects_and sameCalls_now fun _ _ _ h => h) fun nowMs => ?_
  refine hC.andThen ?_ fun p => hC.answer _
  unfold syncOrWait
  split_ifs
  · exact hC.andThen (sameReach_range _ _ _ _) fun outcome => sameReach_record outside cfg outcome _
  · exact hC.answer _

/-- Once the writes reach past both stores, the sync goes on alike on both. -/
theorem sameReach_iterations (cfg : DataSyncConfig) (sleeps : Nat) (p : Progress) :
    Respects (SameReach s t) (iterations outside cfg sleeps p) := by
  have hC := respects_compositional (E := EngineError) (SameReach (S := S) s t)
  induction sleeps generalizing p with
  | zero =>
    unfold iterations
    refine hC.andThen (sameReach_iteration outside cfg p) fun p => ?_
    split_ifs <;> exact hC.answer _
  | succ sleeps ih =>
    unfold iterations
    refine hC.andThen (sameReach_iteration outside cfg p) fun p => ?_
    split_ifs
    · exact ih p
    · exact hC.answer _

/-- Since `before` was written, more candles were, the first of them opening at
`first`. -/
def Tracks (before : List Candle) (first : Option Int64) (w : Feed S) : Prop :=
  ∃ more, w.writes = before ++ more ∧ first = more.head?.map (·.openTimeMs)

omit [LawfulCandleStore S] in
theorem tracks_store {before settled : List Candle} {market : MarketId}
    {outcome : SyncRangeOutcome} :
    Leads (Tracks before outcome.firstOpenTimeMs) (store (S := S) market settled outcome)
      fun o => Tracks before o.firstOpenTimeMs := by
  intro w h o v hrun
  cases settled with
  | nil =>
    rw [store, List.head?_nil] at hrun
    cases hrun
    exact h
  | cons head rest =>
    obtain ⟨last, hlast⟩ : ∃ last, (head :: rest).getLast? = some last :=
      ⟨_, List.getLast?_eq_some_getLast (by simp)⟩
    simp only [store, List.head?_cons, hlast] at hrun
    obtain ⟨written, u, hupsert, hdone⟩ := bind_answers hrun
    cases hdone
    obtain ⟨more, hwrites, hfirst⟩ := h
    have grown := (upsert_answers hupsert).2
    refine ⟨more ++ (head :: rest), by rw [grown, hwrites, List.append_assoc], ?_⟩
    rw [hfirst, List.head?_append, List.head?_cons, Option.map_or]
    rfl

omit [LawfulCandleStore S] in
theorem tracks_pages {before : List Candle} (market : MarketId) (endMs : Int64)
    (batchLimit : UInt16) (cursor : Int64) (outcome : SyncRangeOutcome) :
    Leads (Tracks (S := S) before outcome.firstOpenTimeMs)
      (pages outside market endMs batchLimit cursor outcome)
      fun o => Tracks before o.firstOpenTimeMs := by
  induction cursor, outcome using pages.induct market endMs with
  | case1 cursor outcome hle ih =>
    rw [pages, dif_pos hle]
    refine leads_bind (leads_of_keeps fun _ h => h) fun cutoffMs => ?_
    refine leads_bind (leads_of_keeps fun _ h => h) fun batch => ?_
    cases batch.getLast? with
    | none => exact leads_pure fun _ h => h
    | some lastFetched =>
      refine leads_bind tracks_store fun outcome => ?_
      cases (batch.drop (settledLen batch cutoffMs)).head? with
      | some heldBack => exact leads_pure fun _ h => h
      | none =>
        by_cases hnext : lastFetched.openTimeMs + market.interval.stepMs ≤ cursor
        · simp only [dif_pos hnext]
          exact leads_pure fun _ h => h
        · simp only [dif_neg hnext]
          exact ih lastFetched outcome hnext
  | case2 cursor outcome hgt =>
    rw [pages, dif_neg hgt]
    exact leads_pure fun _ h => h

theorem began_range (market : MarketId) (startMs endMs : Int64) (batchLimit : UInt16) :
    Keeps (Began s) (syncMarketRange outside market startMs endMs batchLimit) := by
  refine range_built (keeps_compositional _) (fun _ h => h) (fun _ _ h => h) ?_
  intro market batch w h
  rcases hrun : Feed.upsertCandles market batch w with ⟨answer, v⟩
  cases answer with
  | ok written => exact began_upsert h hrun
  | error error =>
    unfold Feed.upsertCandles at hrun
    rcases hupsert : CandleStore.upsertCandles market batch w.store with ⟨answer, next⟩
    cases answer with
    | ok count => simp [hupsert] at hrun
    | error found =>
      simp only [hupsert, Prod.mk.injEq, upsert_error hupsert] at hrun
      rw [← hrun.2]
      exact h

omit [LawfulCandleStore S] in
/-- A range sync adds to what was written, and names the first candle it adds. -/
theorem tracks_range {before : List Candle} (market : MarketId) (startMs endMs : Int64)
    (batchLimit : UInt16) :
    Leads (fun w : Feed S => w.writes = before)
      (syncMarketRange outside market startMs endMs batchLimit)
      fun o => Tracks before o.firstOpenTimeMs := by
  have nothing (w : Feed S) (h : w.writes = before) :
      Tracks before SyncRangeOutcome.none_.firstOpenTimeMs w := ⟨[], by rw [h, List.append_nil], rfl⟩
  unfold syncMarketRange
  split_ifs
  · exact leads_pure nothing
  · exact leads_weaken (tracks_pages market endMs batchLimit startMs .none_) nothing fun _ _ h => h

/-- Refreshing the segments changes nothing the range is read from. -/
structure Refreshed (p q : Progress) (w v : Feed S) : Prop where
  store : v.store = w.store
  writes : v.writes = w.writes
  first : q.summary.firstSyncedOpenTimeMs = p.summary.firstSyncedOpenTimeMs
  last : q.summary.lastOpenTimeMs = p.summary.lastOpenTimeMs

omit [CandleStore S] [LawfulCandleStore S] in
theorem refreshPass_answers {written : Nat} {p q : Progress} {w v : Feed S}
    (h : refreshPass outside written p w = (.ok q, v)) : Refreshed p q w v := by
  unfold refreshPass at h
  cases hrefresh : outside.refresh with
  | none =>
    rw [hrefresh] at h
    cases h
    exact ⟨rfl, rfl, rfl, rfl⟩
  | some refresh =>
    simp only [hrefresh] at h
    split_ifs at h
    · obtain ⟨answered, u, hcall, hdone⟩ := bind_answers h
      cases hcall
      cases hanswer : refresh w.refreshes with
      | ok built =>
        rw [hanswer] at hdone
        cases hdone
        exact ⟨rfl, rfl, rfl, rfl⟩
      | error error =>
        rw [hanswer] at hdone
        cases hdone
        exact ⟨rfl, rfl, rfl, rfl⟩
    · cases h
      exact ⟨rfl, rfl, rfl, rfl⟩

variable (outside) in
/-- What one pass over a range leaves. -/
structure Passed (s : S) (cfg : DataSyncConfig) (endMs : Int64) (p q : Progress) (w v : Feed S) :
    Prop where
  range : ∃ o u, syncMarketRange outside cfg.market p.nextStartTimeMs endMs cfg.batchLimit w =
    (.ok o, u) ∧ v.writes = u.writes
  began : Began s v
  first : q.summary.firstSyncedOpenTimeMs = v.writes.head?.map (·.openTimeMs)
  last : IsNewest (holds v.store) q.summary.lastOpenTimeMs

theorem syncPass_answers {cfg : DataSyncConfig} {endMs : Int64} {p q : Progress} {w v : Feed S}
    (began : Began s w)
    (first : p.summary.firstSyncedOpenTimeMs = w.writes.head?.map (·.openTimeMs))
    (hrun : syncPass outside cfg endMs p w = (.ok q, v)) :
    Passed outside s cfg endMs p q w v := by
  obtain ⟨o, u, hrange, hafter⟩ := bind_answers hrun
  obtain ⟨lastOpen, u', hnewest, hpacks⟩ := bind_answers hafter
  obtain ⟨p', v', hrefresh, hmoves⟩ := bind_answers hpacks
  obtain ⟨found, hfound, isNewest⟩ := newest cfg.market u.store
  simp only [Feed.maxOpenTimeMs, hfound, Except.mapError, Prod.mk.injEq, Except.ok.injEq] at hnewest
  obtain ⟨hlast, rfl⟩ := hnewest
  have frame := refreshPass_answers hrefresh
  have began_u : Began s u := by
    have kept : Keeps (Began s)
        (syncMarketRange outside cfg.market p.nextStartTimeMs endMs cfg.batchLimit) :=
      began_range cfg.market p.nextStartTimeMs endMs cfg.batchLimit
    have here := kept w began
    rwa [hrange] at here
  have first_u : (p.summary.firstSyncedOpenTimeMs.or o.firstOpenTimeMs) =
      u.writes.head?.map (·.openTimeMs) := by
    obtain ⟨more, hmore, hfirst⟩ :=
      tracks_range cfg.market p.nextStartTimeMs endMs cfg.batchLimit w rfl o u hrange
    rw [first, hfirst, hmore, List.head?_append, Option.map_or]
  have same : v = v' ∧ q.summary = p'.summary := by
    cases lastOpen with
    | none =>
      cases hmoves
      exact ⟨rfl, rfl⟩
    | some time =>
      cases hmoves
      exact ⟨rfl, rfl⟩
  rw [same.1]
  refine ⟨⟨o, u, hrange, frame.writes⟩, ?_, ?_, ?_⟩
  · intro time
    rw [frame.store, frame.writes]
    exact began_u time
  · rw [same.2, frame.first, frame.writes]
    exact first_u
  · rw [same.2, frame.last, frame.store, ← hlast]
    exact isNewest

end

end QuantForge.DataSync
