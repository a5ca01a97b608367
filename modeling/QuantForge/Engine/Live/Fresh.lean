import QuantForge.Engine.Live.Bars

namespace QuantForge.Live

variable {S σ : Type}

/-- The reference bars of a log's decisions, in order. -/
def decidedBars (log : List Event) : List Candle := log.filterMap Event.decidedBar

theorem acted_decided {v u : View} {bar : Candle} (h : v.Acted bar u) :
    u.decided = v.decided ++ [bar] := by
  cases h with
  | quiet => rfl
  | executed => rfl

/-- Since `before`, decisions were taken on a bootstrap bar, then on bars of
which none is past. -/
def DecidedPresent (before : List Candle) (Entered : List Candle → Prop) (Past : Int64 → Prop)
    (v : View) : Prop :=
  ∃ entered rest, v.decided = before ++ entered ++ rest ∧ Entered entered ∧
    ∀ c ∈ rest, ¬Past c.openTimeMs

/-- The same, with everything past at or before the last bar processed. -/
def DecidedBeyond (before : List Candle) (Entered : List Candle → Prop) (Past : Int64 → Prop)
    (v : View) : Prop :=
  DecidedPresent before Entered Past v ∧
    ∀ time, Past time → ∃ t, v.cursor = some t ∧ time ≤ t

theorem polls_decide (before : List Candle) (Entered : List Candle → Prop) (Past : Int64 → Prop) :
    Polled (DecidedBeyond before Entered Past) (DecidedPresent before Entered Past) where
  ends := fun h => h.1
  step := by
    rintro v u bar ⟨⟨entered, rest, hdecided, hentered, hrest⟩, hpast⟩ behind hfollowed
    have later (time : Int64) (h : Past time) : time < bar.openTimeMs := by
      obtain ⟨t, ht, hle⟩ := hpast time h
      exact Int64.lt_of_le_of_lt hle (behind t ht)
    have present : DecidedPresent before Entered Past u := by
      cases hfollowed with
      | idle => exact ⟨entered, rest, hdecided, hentered, hrest⟩
      | acted hacted =>
        refine ⟨entered, rest ++ [bar], ?_, hentered, fun c hc => ?_⟩
        · have decided := acted_decided hacted
          rw [decided, View.feed_decided, hdecided, List.append_assoc]
        · rcases List.mem_append.mp hc with hc | hc
          · exact hrest c hc
          · rw [List.mem_singleton.mp hc]
            exact fun h => Int64.lt_irrefl (later _ h)
    exact ⟨present, present, fun time h => ⟨bar.openTimeMs, rfl, Int64.le_of_lt (later time h)⟩⟩

section

variable [CandleStore S] (outside : Outside) (cfg : LiveTradeConfig σ)

/-- A bar that was in the store and closed when a run started. -/
def Historic (w : World S) (bar : Candle) : Prop :=
  ∃ candles, CandleStore.loadCandles cfg.market ⟨none, none, none⟩ w.feed.store = .ok candles ∧
    ∃ c ∈ candles, c.openTimeMs = bar.openTimeMs ∧ c.closeTimeMs ≤ outside.now w.feed.clockReads

variable [DecimalMath] (rules : SymbolRules) (strategy : Strategy σ)

/-- A resumed run decides only on bars after the last one processed. -/
theorem resumed_decides (sleeps : Nat) (state : σ) (w : World S) {t : Int64}
    (resumed : w.state.lastProcessedOpenTimeMs = some t) :
    ∃ rest, decidedBars (runInner outside cfg rules strategy sleeps state w).2.log =
      decidedBars w.log ++ rest ∧ ∀ c ∈ rest, t < c.openTimeMs := by
  have start (bars : List Candle) :
      DecidedPresent (decidedBars w.log) (· = []) (· ≤ t) (w.toBook.view.feed bars) :=
    ⟨[], [], by simp [decidedBars, Book.view], rfl, by simp⟩
  have shown : DecidedPresent (decidedBars w.log) (· = []) (· ≤ t)
      (runInner outside cfg rules strategy sleeps state w).2.toBook.view := by
    refine view_runInner outside cfg rules strategy (polls_decide _ _ _) ?_
      (fun _ front _ _ => start front) fun bars u _ hbegan => ?_
    · rw [← View.feed_nil w.toBook.view]
      exact start []
    · have fresh (h : w.toBook.view.cursor = none) : False := by
        rw [show w.toBook.view.cursor = some t from resumed] at h
        cases h
      cases hbegan with
      | resumed ht => exact ⟨start bars, fun time hle => ⟨t, resumed, hle⟩⟩
      | fresh h => exact (fresh h).elim
      | entered h _ _ _ => exact (fresh h).elim
  obtain ⟨entered, rest, hdecided, hnone, hrest⟩ := shown
  refine ⟨rest, ?_, fun c hc => Int64.not_le.mp (hrest c hc)⟩
  rw [hnone, List.append_nil] at hdecided
  exact hdecided

/-- A run that had processed no bar decides on none that was in the store and
closed when it started, its bootstrap entry apart, where the bars that its
bootstrap loads reach up to all of those. -/
theorem fresh_decides (sleeps : Nat) (state : σ) (w : World S)
    (fresh : w.state.lastProcessedOpenTimeMs = none)
    (reaches : ∀ bars, Warms outside cfg strategy state w bars → ∀ c, Historic outside cfg w c →
      ∃ last, bars.getLast? = some last ∧ c.openTimeMs ≤ last.openTimeMs) :
    ∃ entered rest, decidedBars (runInner outside cfg rules strategy sleeps state w).2.log =
        decidedBars w.log ++ entered ++ rest ∧
      (entered = [] ∨ cfg.bootstrapEnter = true ∧ ∃ bars last,
        Warms outside cfg strategy state w bars ∧ bars.getLast? = some last ∧ entered = [last]) ∧
      ∀ c ∈ rest, ¬Historic outside cfg w c := by
  let Entered (entered : List Candle) : Prop := entered = [] ∨ cfg.bootstrapEnter = true ∧
    ∃ bars last, Warms outside cfg strategy state w bars ∧ bars.getLast? = some last ∧
      entered = [last]
  let Past (time : Int64) : Prop := ∃ c, Historic outside cfg w c ∧ c.openTimeMs = time
  have start (bars : List Candle) :
      DecidedPresent (decidedBars w.log) Entered Past (w.toBook.view.feed bars) :=
    ⟨[], [], by simp [decidedBars, Book.view], .inl rfl, by simp⟩
  have shown : DecidedPresent (decidedBars w.log) Entered Past
      (runInner outside cfg rules strategy sleeps state w).2.toBook.view := by
    refine view_runInner outside cfg rules strategy (polls_decide _ _ _) ?_
      (fun _ front _ _ => start front) fun bars u hwarms hbegan => ?_
    · rw [← View.feed_nil w.toBook.view]
      exact start []
    · have past (time : Int64) (h : Past time) :
          ∃ last, bars.getLast? = some last ∧ time ≤ last.openTimeMs := by
        obtain ⟨c, hc, rfl⟩ := h
        exact reaches bars hwarms c hc
      cases hbegan with
      | resumed ht =>
        rw [show w.toBook.view.cursor = none from fresh] at ht
        cases ht
      | fresh _ =>
        refine ⟨start bars, fun time h => ?_⟩
        obtain ⟨last, hlast, hle⟩ := past time h
        exact ⟨last.openTimeMs, by rw [hlast]; rfl, hle⟩
      | @entered bar _ _ henter hlast hacted =>
        have decided := acted_decided hacted
        have cursor := (acted_fed hacted).2
        refine ⟨⟨[bar], [], ?_, .inr ⟨henter, bars, bar, hwarms, hlast, rfl⟩, by simp⟩,
          fun time h => ⟨bar.openTimeMs, cursor, ?_⟩⟩
        · rw [decided, List.append_nil]
          rfl
        · obtain ⟨last, hlast', hle⟩ := past time h
          rw [hlast, Option.some.injEq] at hlast'
          rw [hlast']
          exact hle
  obtain ⟨entered, rest, hdecided, hentered, hrest⟩ := shown
  exact ⟨entered, rest, hdecided, hentered, fun c hc h => hrest c hc ⟨c, h, rfl⟩⟩

/-- No run decides on history: a resumed one never, and one that had processed
no bar where the bars that its bootstrap loads reach up to everything that was
in the store and closed, its bootstrap entry apart. -/
theorem decides_on_new_bars (sleeps : Nat) (state : σ) (w : World S)
    (reaches : w.state.lastProcessedOpenTimeMs = none →
      ∀ bars, Warms outside cfg strategy state w bars → ∀ c, Historic outside cfg w c →
        ∃ last, bars.getLast? = some last ∧ c.openTimeMs ≤ last.openTimeMs) :
    ∃ entered rest, decidedBars (runInner outside cfg rules strategy sleeps state w).2.log =
        decidedBars w.log ++ entered ++ rest ∧
      (∀ t, w.state.lastProcessedOpenTimeMs = some t →
        entered = [] ∧ ∀ c ∈ rest, t < c.openTimeMs) ∧
      (w.state.lastProcessedOpenTimeMs = none →
        (entered = [] ∨ cfg.bootstrapEnter = true ∧ ∃ bars last,
          Warms outside cfg strategy state w bars ∧ bars.getLast? = some last ∧
            entered = [last]) ∧
        ∀ c ∈ rest, ¬Historic outside cfg w c) := by
  cases hcursor : w.state.lastProcessedOpenTimeMs with
  | some t =>
    obtain ⟨rest, hdecided, hrest⟩ :=
      resumed_decides outside cfg rules strategy sleeps state w hcursor
    refine ⟨[], rest, by rw [List.append_nil]; exact hdecided, fun u hu => ?_, fun h => by cases h⟩
    rw [← Option.some.inj hu]
    exact ⟨rfl, hrest⟩
  | none =>
    obtain ⟨entered, rest, hdecided, hentered, hrest⟩ :=
      fresh_decides outside cfg rules strategy sleeps state w hcursor (reaches hcursor)
    exact ⟨entered, rest, hdecided, fun t ht => (by cases ht), fun _ => ⟨hentered, hrest⟩⟩

end

attribute [local instance] Segments.exactTextParser DecimalMath.exact_

/-- A run created afresh over a store that holds bars. -/
def startedWorld (bars : List Candle) : World Sqlite.Store :=
  { freshWorld (storedBars bars) with
    runs := fun _ => some ⟨newRun sampleConfig "run" 0, sampleConfig.identity⟩ }

def alwaysLong : Strategy Unit :=
  ⟨fun _ s => .ok s, fun _ _ s => .ok (some .longAllIn, s), fun _ s => .ok s⟩

/-- A venue that fills every buy. -/
def buying : Outside := filling (filledBuy (.ofUInt32 20) .zero)

/-- Without bootstrap bars a fresh run buys on the oldest bar of the store. -/
theorem history_traded :
    Historic buying { sampleConfig with bootstrapBars := 0 }
        (startedWorld [sampleBar 0, sampleBar 60000]) (sampleBar 0) ∧
      decidedBars (runInner buying { sampleConfig with bootstrapBars := 0 } wholeRules alwaysLong 0 ()
        (startedWorld [sampleBar 0, sampleBar 60000])).2.log = [sampleBar 0] := by
  constructor
  · refine ⟨[sampleBar 0, sampleBar 60000], ?_, sampleBar 0, by simp, rfl, by decide⟩
    decide +kernel
  · decide +kernel

/-- With its bootstrap over all stored bars a fresh run leaves them alone. -/
theorem sample_decides_on_new_bars :
    ∃ entered rest, decidedBars (runInner buying sampleConfig wholeRules alwaysLong 0 ()
        (startedWorld [sampleBar 0, sampleBar 60000])).2.log =
        decidedBars (startedWorld [sampleBar 0, sampleBar 60000]).log ++ entered ++ rest ∧
      (∀ t, (startedWorld [sampleBar 0, sampleBar 60000]).state.lastProcessedOpenTimeMs = some t →
        entered = [] ∧ ∀ c ∈ rest, t < c.openTimeMs) ∧
      ((startedWorld [sampleBar 0, sampleBar 60000]).state.lastProcessedOpenTimeMs = none →
        (entered = [] ∨ sampleConfig.bootstrapEnter = true ∧ ∃ bars last,
          Warms buying sampleConfig alwaysLong () (startedWorld [sampleBar 0, sampleBar 60000]) bars ∧
            bars.getLast? = some last ∧ entered = [last]) ∧
        ∀ c ∈ rest, ¬Historic buying sampleConfig
          (startedWorld [sampleBar 0, sampleBar 60000]) c) := by
  refine decides_on_new_bars buying sampleConfig wholeRules alwaysLong 0 () _
    fun _ bars hwarms c hc => ?_
  obtain ⟨d, v, hrun⟩ := hwarms
  have loaded : (warmUp buying sampleConfig alwaysLong ()
      (startedWorld [sampleBar 0, sampleBar 60000])).1.toOption.map Prod.fst =
        some [sampleBar 0, sampleBar 60000] := by decide +kernel
  rw [hrun] at loaded
  have two : bars = [sampleBar 0, sampleBar 60000] := Option.some.inj loaded
  have stored : CandleStore.loadCandles sampleMarket ⟨none, none, none⟩
      (startedWorld [sampleBar 0, sampleBar 60000]).feed.store =
        .ok [sampleBar 0, sampleBar 60000] := by decide +kernel
  obtain ⟨candles, hstored, found, hfound, htime, -⟩ := hc
  have same : candles = [sampleBar 0, sampleBar 60000] := Except.ok.inj (hstored.symm.trans stored)
  rw [same] at hfound
  refine ⟨sampleBar 60000, by rw [two]; rfl, ?_⟩
  rw [← htime]
  simp only [List.mem_cons, List.not_mem_nil, or_false] at hfound
  rcases hfound with rfl | rfl
  · decide
  · decide

end QuantForge.Live
