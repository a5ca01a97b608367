import QuantForge.Engine.Live.Steps
import QuantForge.Storage.Sqlite.CandleStore

namespace QuantForge.Live

open Prog

variable {S σ : Type}

/-- Each bar opens after the one before. -/
def Rising (bars : List Candle) : Prop := bars.Pairwise fun a b => a.openTimeMs < b.openTimeMs

/-- The bars a log gives the strategy, in order. -/
def fedBars (log : List Event) : List Candle := log.filterMap Event.fedBar

theorem rising_snoc {bars : List Candle} {bar : Candle} (h : Rising bars)
    (before : ∀ c ∈ bars, c.openTimeMs < bar.openTimeMs) : Rising (bars ++ [bar]) := by
  rw [Rising, List.pairwise_append]
  refine ⟨h, List.pairwise_singleton _ _, fun c hc last hlast => ?_⟩
  rw [List.mem_singleton.mp hlast]
  exact before c hc

theorem rising_last {bars : List Candle} {last c : Candle} (h : Rising bars)
    (hlast : bars.getLast? = some last) (hc : c ∈ bars) : c.openTimeMs ≤ last.openTimeMs := by
  obtain ⟨front, rfl⟩ := List.getLast?_eq_some_iff.mp hlast
  rcases List.mem_append.mp hc with hc | hc
  · exact Int64.le_of_lt ((List.pairwise_append.mp h).2.2 c hc last (by simp))
  · rw [List.mem_singleton.mp hc]
    exact Int64.le_refl _

theorem acted_fed {v u : View} {bar : Candle} (h : v.Acted bar u) :
    u.fed = v.fed ∧ u.cursor = v.cursor := by
  cases h with
  | quiet => exact ⟨rfl, rfl⟩
  | executed => exact ⟨rfl, rfl⟩

theorem followed_fed {v u : View} {bar : Candle} (h : v.Followed bar u) :
    u.fed = v.fed ++ [bar] := by
  cases h with
  | idle => rfl
  | acted hacted => exact (acted_fed hacted).1

/-- Since `before`, the strategy was given rising bars, none after the last one
processed. -/
def FedUpTo (before : List Candle) (v : View) : Prop :=
  ∃ bars, v.fed = before ++ bars ∧ Rising bars ∧
    ∀ c ∈ bars, ∃ t, v.cursor = some t ∧ c.openTimeMs ≤ t

def FedRising (before : List Candle) (v : View) : Prop :=
  ∃ bars, v.fed = before ++ bars ∧ Rising bars

/-- The poll loop alone never gives a bar twice. -/
theorem polls_feed (before : List Candle) : Polled (FedUpTo before) (FedRising before) where
  ends := fun ⟨bars, hfed, hrising, _⟩ => ⟨bars, hfed, hrising⟩
  step := by
    rintro v u bar ⟨bars, hfed, hrising, hcursor⟩ behind hfollowed
    have all : u.fed = before ++ (bars ++ [bar]) := by
      rw [followed_fed hfollowed, hfed, List.append_assoc]
    have rises : Rising (bars ++ [bar]) := by
      refine rising_snoc hrising fun c hc => ?_
      obtain ⟨t, ht, hle⟩ := hcursor c hc
      exact Int64.lt_of_le_of_lt hle (behind t ht)
    refine ⟨⟨_, all, rises⟩, _, all, rises, fun c hc => ⟨bar.openTimeMs, rfl, ?_⟩⟩
    exact rising_last rises (by simp) hc

section

variable [CandleStore S] [OrderedCandleStore S] [DecimalMath] (outside : Outside)
  (cfg : LiveTradeConfig σ) (rules : SymbolRules) (strategy : Strategy σ)

omit [DecimalMath] in
/-- The bootstrap loads rising bars. -/
theorem warms_rising {state : σ} {w : World S} {bars : List Candle}
    (h : Warms outside cfg strategy state w bars) : Rising bars := by
  obtain ⟨d, v, hrun⟩ := h
  obtain ⟨-, w1, -, h1⟩ := bind_answers hrun
  obtain ⟨now, w2, -, h2⟩ := bind_answers h1
  obtain ⟨run, w3, -, h3⟩ := bind_answers h2
  obtain ⟨first, w4, -, h4⟩ := bind_answers h3
  obtain ⟨-, w5, -, h5⟩ := bind_answers h4
  obtain ⟨nowMs, w6, -, h6⟩ := bind_answers h5
  obtain ⟨run', w7, -, h7⟩ := bind_answers h6
  obtain ⟨next, w8, -, h8⟩ := bind_answers h7
  obtain ⟨candles, w9, hload, h9⟩ := bind_answers h8
  obtain ⟨closed, w10, hfilter, h10⟩ := bind_answers h9
  obtain ⟨-, w11, -, hread⟩ := bind_answers hload
  have recent : CandleStore.loadRecentCandles cfg.market cfg.bootstrapBars w11.feed.store =
      .ok candles := by
    rw [Prod.mk.injEq] at hread
    cases hstore : CandleStore.loadRecentCandles cfg.market cfg.bootstrapBars w11.feed.store with
    | error error => rw [hstore] at hread; cases hread.1
    | ok found => rw [hstore] at hread; rw [Except.ok.inj hread.1]
  obtain ⟨clock, w12, -, h12⟩ := bind_answers hfilter
  cases h12
  cases h10
  exact (OrderedCandleStore.recent_rising recent).filter _

/-- A run gives its strategy rising bars, each once, unless it is resumed and
its bootstrap already holds bars after the last one processed: those are
replayed, and the poll loop gives them again. -/
theorem run_feeds_rising (sleeps : Nat) (state : σ) (w : World S)
    (behind : ∀ t bars, w.state.lastProcessedOpenTimeMs = some t →
      Warms outside cfg strategy state w bars → ∀ c ∈ bars, c.openTimeMs ≤ t) :
    ∃ bars, fedBars (runInner outside cfg rules strategy sleeps state w).2.log =
      fedBars w.log ++ bars ∧ Rising bars := by
  refine view_runInner (R := FedRising (fedBars w.log)) outside cfg rules strategy
    (polls_feed (fedBars w.log)) ⟨[], (List.append_nil _).symm, List.Pairwise.nil⟩ ?_ ?_
  · intro bars front hwarms hfront
    exact ⟨front, rfl, (warms_rising outside cfg strategy hwarms).sublist hfront.sublist⟩
  · intro bars u hwarms hbegan
    have rises := warms_rising outside cfg strategy hwarms
    have last (c : Candle) (hc : c ∈ bars) :
        ∃ t, bars.getLast?.map (·.openTimeMs) = some t ∧ c.openTimeMs ≤ t := by
      cases hlast : bars.getLast? with
      | none =>
        rw [List.getLast?_eq_none_iff.mp hlast] at hc
        cases hc
      | some bar => exact ⟨bar.openTimeMs, rfl, rising_last rises hlast hc⟩
    cases hbegan with
    | resumed ht => exact ⟨bars, rfl, rises, fun c hc => ⟨_, ht, behind _ bars ht hwarms c hc⟩⟩
    | fresh _ => exact ⟨bars, rfl, rises, last⟩
    | entered _ _ hlast hacted =>
      obtain ⟨hfed, hcursor⟩ := acted_fed hacted
      rw [hlast] at last
      exact ⟨bars, hfed, rises, by rw [hcursor]; exact last⟩

end

attribute [local instance] Segments.exactTextParser DecimalMath.exact_

def storedBars (bars : List Candle) : Sqlite.Store :=
  { Sqlite.Store.empty with
    candles := bars.foldl (fun candles bar => candles.put bar.toText) Table.empty }

/-- A venue that fills nothing, as no order is sent. -/
def idle : Outside := filling (filledBuy .zero .zero)

def flatConfig : LiveTradeConfig Unit := { sampleConfig with strategy := always .flat }

def alwaysFlat : Strategy Unit := ⟨fun _ s => .ok s, fun _ _ s => .ok (some .flat, s), fun _ s => .ok s⟩

/-- A run that had processed the bar at `t`, over a store that holds bars. -/
def resumedWorld (t : Int64) (bars : List Candle) : World Sqlite.Store :=
  let state := { newRun flatConfig "run" 0 with lastProcessedOpenTimeMs := some t }
  { freshWorld (storedBars bars) with
    runs := fun _ => some ⟨state, flatConfig.identity⟩
    state }

/-- Resumed after the first of two stored bars, a run gives its strategy both,
then the second again. -/
theorem bar_fed_twice :
    ¬∃ bars, fedBars (runInner idle flatConfig wholeRules alwaysFlat 0 ()
      (resumedWorld 0 [sampleBar 0, sampleBar 60000])).2.log = fedBars [] ++ bars ∧ Rising bars := by
  have fed : (fedBars (runInner idle flatConfig wholeRules alwaysFlat 0 ()
      (resumedWorld 0 [sampleBar 0, sampleBar 60000])).2.log).map (·.openTimeMs) =
        [0, 60000, 60000] := by decide +kernel
  rintro ⟨bars, hbars, hrising⟩
  rw [hbars] at fed
  have rises : (bars.map (·.openTimeMs)).Pairwise (· < ·) := List.pairwise_map.mpr hrising
  have times : bars.map (·.openTimeMs) = [0, 60000, 60000] := fed
  rw [times] at rises
  revert rises
  decide

/-- Resumed after the last stored bar, a run gives its strategy each bar once. -/
theorem sample_feeds_rising :
    ∃ bars, fedBars (runInner idle flatConfig wholeRules alwaysFlat 0 ()
      (resumedWorld 60000 [sampleBar 0, sampleBar 60000])).2.log = fedBars [] ++ bars ∧
        Rising bars := by
  refine run_feeds_rising idle flatConfig wholeRules alwaysFlat 0 () _ fun t bars ht hwarms => ?_
  have last : (60000 : Int64) = t := Option.some.inj ht
  obtain ⟨d, v, hrun⟩ := hwarms
  have loaded : (warmUp idle flatConfig alwaysFlat ()
      (resumedWorld 60000 [sampleBar 0, sampleBar 60000])).1.toOption.map Prod.fst =
        some [sampleBar 0, sampleBar 60000] := by decide +kernel
  rw [hrun] at loaded
  have two : bars = [sampleBar 0, sampleBar 60000] := Option.some.inj loaded
  rw [two, ← last]
  decide

end QuantForge.Live
