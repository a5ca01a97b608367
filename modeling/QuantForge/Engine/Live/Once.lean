import QuantForge.Engine.Live.Bars
import QuantForge.Engine.Live.Sessions

namespace QuantForge.Live

variable {S σ : Type}

/-- The open times of the bars that the venue executed orders on. -/
def executedTimes (log : List Event) : List Int64 :=
  (log.filterMap Event.executedBar).map (·.openTimeMs)

/-- The journal's record of a run is at or after every bar that an order was
executed on. -/
def CaughtUp (id : String) (w : World S) : Prop :=
  ∀ time ∈ executedTimes w.log, ∃ row t, w.runs id = some row ∧
    row.state.lastProcessedOpenTimeMs = some t ∧ time ≤ t

def ExecutedOnce (v : View) : Prop := Rising v.executed

/-- Every order so far was executed on a bar at or before the last one
processed. -/
def ExecutedUpTo (v : View) : Prop :=
  Rising v.executed ∧ ∀ c ∈ v.executed, ∃ t, v.cursor = some t ∧ c.openTimeMs ≤ t

theorem acted_executed {v u : View} {bar : Candle} (h : v.Acted bar u) :
    u.executed = v.executed ∨ u.executed = v.executed ++ [bar] := by
  cases h with
  | quiet => exact .inl rfl
  | executed => exact .inr rfl

theorem followed_executed {v u : View} {bar : Candle} (h : v.Followed bar u) :
    u.executed = v.executed ∨ u.executed = v.executed ++ [bar] := by
  cases h with
  | idle => exact .inl rfl
  | acted hacted =>
    have executed := acted_executed hacted
    exact executed

/-- Acting on a bar after every executed one executes an order at most once. -/
theorem executes_next {v u : View} {bar : Candle} (h : Rising v.executed)
    (before : ∀ c ∈ v.executed, c.openTimeMs < bar.openTimeMs)
    (executed : u.executed = v.executed ∨ u.executed = v.executed ++ [bar]) :
    Rising u.executed ∧ ∀ c ∈ u.executed, c.openTimeMs ≤ bar.openTimeMs := by
  rcases executed with same | next
  · rw [same]
    exact ⟨h, fun c hc => Int64.le_of_lt (before c hc)⟩
  · rw [next]
    have rises := rising_snoc h before
    exact ⟨rises, fun c hc => rising_last rises (by simp) hc⟩

theorem polls_execute : Polled ExecutedUpTo ExecutedOnce where
  ends := fun h => h.1
  step := by
    intro v u bar hv behind hfollowed
    have before (c : Candle) (hc : c ∈ v.executed) : c.openTimeMs < bar.openTimeMs := by
      obtain ⟨t, ht, hle⟩ := hv.2 c hc
      exact Int64.lt_of_le_of_lt hle (behind t ht)
    obtain ⟨rises, upTo⟩ := executes_next hv.1 before (followed_executed hfollowed)
    exact ⟨rises, rises, fun c hc => ⟨bar.openTimeMs, rfl, upTo c hc⟩⟩

section

variable [CandleStore S] [DecimalMath] (outside : Outside) (cfg : LiveTradeConfig σ)

/-- A run that starts at or after every executed bar executes each bar's
decision once. -/
theorem inner_executes (rules : SymbolRules) (strategy : Strategy σ) (sleeps : Nat) (state : σ)
    (w : World S) (upTo : ExecutedUpTo w.toBook.view) :
    ExecutedOnce (runInner outside cfg rules strategy sleeps state w).2.toBook.view := by
  refine view_runInner (R := ExecutedOnce) outside cfg rules strategy polls_execute upTo.1
    (fun _ _ _ _ => upTo.1) fun bars u _ hbegan => ?_
  have nothing (fresh : w.toBook.view.cursor = none) : w.toBook.view.executed = [] := by
    refine List.eq_nil_iff_forall_not_mem.mpr fun c hc => ?_
    obtain ⟨t, ht, -⟩ := upTo.2 c hc
    rw [fresh] at ht
    cases ht
  cases hbegan with
  | resumed _ => exact upTo
  | fresh hfresh =>
    refine ⟨upTo.1, fun c hc => ?_⟩
    rw [show ((w.toBook.view.feed bars).process _).executed = w.toBook.view.executed from rfl,
      nothing hfresh] at hc
    cases hc
  | @entered bar _ hfresh _ _ hacted =>
    have before (c : Candle) (hc : c ∈ ((w.toBook.view.feed bars).process
        (some bar.openTimeMs)).executed) : c.openTimeMs < bar.openTimeMs := by
      rw [show ((w.toBook.view.feed bars).process _).executed = w.toBook.view.executed from rfl,
        nothing hfresh] at hc
      cases hc
    have executed := acted_executed hacted
    obtain ⟨rises, upToBar⟩ := executes_next upTo.1 before executed
    refine ⟨rises, fun c hc => ⟨bar.openTimeMs, ?_, upToBar c hc⟩⟩
    exact (acted_fed hacted).2

/-- One session executes each bar's decision once where the journal had caught
up. -/
theorem session_executes {id : String} (named : cfg.runId = some id) {w : World S} (sleeps : Nat)
    (once : ExecutedOnce w.toBook.view) (caughtUp : CaughtUp id w) :
    ExecutedOnce (run outside cfg sleeps w).2.toBook.view := by
  refine run_shows (R := ExecutedOnce) outside cfg (fun _ _ h => h) once ?_
  intro state u rules strategy initial takes hstate hview
  refine inner_executes outside cfg rules strategy sleeps initial u ?_
  rw [hview]
  refine ⟨once, fun c hc => ?_⟩
  have time : c.openTimeMs ∈ executedTimes w.log := List.mem_map_of_mem hc
  obtain ⟨row, t, hrow, ht, hle⟩ := caughtUp c.openTimeMs time
  rcases takes_cases outside cfg named takes with ⟨found, hfound, hsame⟩ | ⟨hnone, -⟩
  · rw [hrow, Option.some.injEq] at hfound
    rw [← hfound] at hsame
    exact ⟨t, by rw [← hsame]; exact ht, hle⟩
  · rw [hrow] at hnone
    cases hnone

/-- Over any sessions of one run, each started once the journal has caught up
with what the venue executed, every bar's decision is executed at most once,
wherever the sessions end. -/
theorem sessions_execute_once {id : String} (named : cfg.runId = some id) {w : World S}
    (unused : executedTimes w.log = []) (lengths : List Nat)
    (caughtUp : (sessions outside cfg).Every (fun u _ => CaughtUp id u) w lengths) :
    (executedTimes ((sessions outside cfg).run w lengths).log).Nodup := by
  have start : ExecutedOnce w.toBook.view := by
    have none_ : w.toBook.view.executed = [] := List.map_eq_nil_iff.mp unused
    rw [ExecutedOnce, none_]
    exact List.Pairwise.nil
  have rises : ExecutedOnce ((sessions outside cfg).run w lengths).toBook.view :=
    (sessions outside cfg).run_history (fun _ u => ExecutedOnce u.toBook.view) start
      (fun past sleeps once caught => session_executes outside cfg named sleeps once caught)
      lengths caughtUp
  have times : (executedTimes ((sessions outside cfg).run w lengths).log).Pairwise (· < ·) :=
    List.pairwise_map.mpr rises
  refine times.imp fun {a b} hlt heq => ?_
  rw [heq] at hlt
  exact Int64.lt_irrefl hlt

end

attribute [local instance] Segments.exactTextParser DecimalMath.exact_

/-- A run over two stored bars, the first of them processed. -/
def halfWorld : World Sqlite.Store :=
  { resumedWorld 0 [sampleBar 0, sampleBar 60000] with
    runs := fun _ => some
      ⟨{ newRun sampleConfig "run" 0 with lastProcessedOpenTimeMs := some 0 }, sampleConfig.identity⟩ }

/-- A journal that loses the save of an executed entry, and the save that records
the failure. -/
def losingSaves : Outside :=
  { filling (filledBuy (.ofUInt32 20) .zero) with
    write := fun call => if call = 9 ∨ call = 10 then .failed (.outcomeUnknown "") false else .done }

/-- A second session executes the entry again that the first one could not
save. -/
theorem entry_sent_again :
    executedTimes halfWorld.log = [] ∧
      ¬(executedTimes ((sessions losingSaves sampleConfig).run halfWorld [0, 0]).log).Nodup := by
  decide +kernel

/-- Two sessions whose saves are kept execute the entry once. -/
theorem sample_executes_once :
    (executedTimes ((sessions (filling (filledBuy (.ofNat 20) .zero)) sampleConfig).run halfWorld
      [0, 0]).log).Nodup := by
  refine sessions_execute_once _ sampleConfig rfl rfl [0, 0] ⟨?_, ?_, trivial⟩
  · intro time htime
    cases htime
  · let next := (sessions (filling (filledBuy (.ofNat 20) .zero)) sampleConfig).next halfWorld 0
    have times : executedTimes next.log = [60000] := by decide +kernel
    have cursor : (next.runs "run").map (·.state.lastProcessedOpenTimeMs) = some (some 60000) := by
      decide +kernel
    intro time htime
    obtain ⟨row, hrow, ht⟩ := Option.map_eq_some_iff.mp cursor
    rw [times, List.mem_singleton] at htime
    exact ⟨row, 60000, hrow, ht, by rw [htime]; decide⟩

end QuantForge.Live
