import QuantForge.Engine.Live
import QuantForge.Engine.Live.View

namespace QuantForge.Live

open Prog

variable {S σ : Type}

namespace View

/-- The view after a bar of the poll loop, before it counts as processed. -/
inductive Followed (v : View) (bar : Candle) : View → Prop
  | idle : Followed v bar (v.feed [bar])
  | acted {u : View} : Acted (v.feed [bar]) bar u → Followed v bar u

/-- The view after a bootstrap over `bars`: a run that had processed no bar
begins after the last of them, and may act on it. -/
inductive Began (v : View) (enter : Bool) (bars : List Candle) : View → Prop
  | resumed {t : Int64} : v.cursor = some t → Began v enter bars (v.feed bars)
  | fresh : v.cursor = none → Began v enter bars ((v.feed bars).process
      (bars.getLast?.map (·.openTimeMs)))
  | entered {bar : Candle} {u : View} : v.cursor = none → enter = true →
      bars.getLast? = some bar →
      Acted ((v.feed bars).process (some bar.openTimeMs)) bar u →
      Began v enter bars u

end View

variable {P : View → Prop} {R : View → Prop} (outside : Outside) (cfg : LiveTradeConfig σ)
  (rules : SymbolRules) (strategy : Strategy σ)

theorem view_onBar (bar : Candle) (d : Driver σ) (v : View) :
    Spec (fun b => b.view = v) (onBar strategy bar d : Part S (Option TargetPosition × Driver σ))
      (fun _ b => b.view = v.feed [bar])
      fun _ b => b.view = v.feed [bar] := by
  refine spec_runState fun state => ?_
  refine spec_bind (Q := fun _ b => b.view = v.feed [bar])
    (spec_record fun b h => by rw [view_fed, h.1]) fun _ => ?_
  exact spec_after (callback_quiet _) (fun _ _ h => h) fun answered => spec_pure fun _ h => h

theorem view_setLastProcessed (openTimeMs : Option Int64) (v : View) :
    Spec (fun b => b.view = v) (setLastProcessed outside openTimeMs : Part S Unit)
      (fun _ b => b.view = v.process openTimeMs) fun _ _ => False := by
  refine spec_runState fun state => spec_now outside fun updatedAtMs => ?_
  exact spec_setState fun b h => by rw [← h.1]; rfl

/-- A replay gives the strategy its bars in order, as far as it gets. -/
theorem view_replay (bars : List Candle) (target : TargetPosition) (d : Driver σ) (v : View) :
    Spec (fun b => b.view = v)
      (replay strategy bars target d : Part S (TargetPosition × Driver σ))
      (fun _ b => b.view = v.feed bars)
      fun _ b => ∃ front, front <+: bars ∧ b.view = v.feed front := by
  induction bars generalizing target d v with
  | nil => exact spec_pure fun b h => by rw [h, View.feed_nil]
  | cons bar bars ih =>
    refine spec_bind (Q := fun _ b => b.view = v.feed [bar]) ?_ fun answered => ?_
    · refine meets_weaken (view_onBar strategy bar d v) (fun _ h => h) (fun _ _ h => h) ?_
      exact fun _ _ h => ⟨[bar], by simp, h⟩
    · refine meets_weaken (ih (answered.1.getD target) answered.2 _) (fun _ h => h) ?_ ?_
      · intro _ w h
        simpa using h
      · rintro _ w ⟨front, hfront, h⟩
        exact ⟨bar :: front, by simpa using hfront, by simpa using h⟩

variable [DecimalMath]

theorem view_enterBootstrap (bars : List Candle) (target : TargetPosition) (v : View) :
    Spec (fun b => b.view = v) (enterBootstrap outside cfg rules bars target : Part S Unit)
      (fun _ b => b.view = v ∨ cfg.bootstrapEnter = true ∧
        ∃ bar, bars.getLast? = some bar ∧ v.Acted bar b.view)
      fun _ b => b.view = v ∨ cfg.bootstrapEnter = true ∧
        ∃ bar, bars.getLast? = some bar ∧ v.Acted bar b.view := by
  refine spec_after runState_quiet (fun _ _ h => .inl h) fun state => ?_
  split_ifs with henter
  · cases hlast : bars.getLast? with
    | none => exact spec_pure fun _ h => .inl h
    | some bar =>
      refine meets_weaken (view_executeTarget outside cfg rules target bar v) (fun _ h => h) ?_ ?_
      · exact fun _ _ h => .inr ⟨henter.1, bar, rfl, h⟩
      · exact fun _ _ h => .inr ⟨henter.1, bar, rfl, h⟩
  · exact spec_pure fun _ h => .inl h

/-- A bootstrap replays its bars and begins after them, as far as it gets. -/
theorem view_bootstrap (bars : List Candle) (d : Driver σ) (v : View) :
    Spec (fun b => b.view = v)
      (bootstrap outside cfg rules strategy bars d : Part S (Driver σ))
      (fun _ b => v.Began cfg.bootstrapEnter bars b.view)
      fun _ b => v.Began cfg.bootstrapEnter bars b.view ∨
        ∃ front, front <+: bars ∧ b.view = v.feed front := by
  refine spec_after runState_quiet (fun _ _ h => .inr ⟨[], by simp, by simp [h]⟩) fun run => ?_
  refine spec_bind (Q := fun _ b => b.view = v.feed bars)
    (meets_weaken (view_replay strategy bars _ d v) (fun _ h => h) (fun _ _ h => h)
      fun _ _ h => .inr h) fun replayed => ?_
  refine spec_bind (Q := fun _ b => v.Began cfg.bootstrapEnter bars b.view) ?_ fun _ =>
    spec_pure fun _ h => h
  refine spec_runState fun state => ?_
  by_cases hfresh : state.lastProcessedOpenTimeMs = none
  · rw [if_pos hfresh]
    have cursor {b : Book} (h : b.view = v.feed bars ∧ b.state = state) :
        v.cursor = none := by
      rw [← hfresh, ← h.2]
      exact (congrArg View.cursor h.1).symm
    by_cases hv : v.cursor = none
    · have began (u : View) (h : u = (v.feed bars).process (bars.getLast?.map (·.openTimeMs)) ∨
          cfg.bootstrapEnter = true ∧ ∃ bar, bars.getLast? = some bar ∧
            View.Acted ((v.feed bars).process (bars.getLast?.map (·.openTimeMs))) bar u) :
          v.Began cfg.bootstrapEnter bars u := by
        rcases h with rfl | ⟨henter, bar, hlast, hacted⟩
        · exact .fresh hv
        · rw [hlast] at hacted
          exact .entered hv henter hlast hacted
      refine spec_bind (Q := fun _ b => b.view =
          (v.feed bars).process (bars.getLast?.map (·.openTimeMs)))
        (meets_weaken (view_setLastProcessed outside _ (v.feed bars))
          (fun _ h => h.1) (fun _ _ h => h) fun _ _ h => h.elim) fun _ => ?_
      refine spec_bind (Q := fun _ b => v.Began cfg.bootstrapEnter bars b.view)
        (meets_weaken (view_enterBootstrap outside cfg rules bars _ _) (fun _ h => h)
          (fun _ w h => began _ h) fun _ w h => .inl (began _ h)) fun _ => ?_
      exact view_saveRunState (P := fun u => v.Began cfg.bootstrapEnter bars u)
        (R := fun _ u => v.Began cfg.bootstrapEnter bars u ∨
          ∃ front, front <+: bars ∧ u = v.feed front) outside fun _ _ h => .inl h
    · exact fun w h => absurd (cursor h) hv
  · rw [if_neg hfresh]
    refine spec_pure fun b h => ?_
    cases ht : state.lastProcessedOpenTimeMs with
    | none => exact absurd ht hfresh
    | some t =>
      have hv : v.cursor = some t := by
        rw [← ht, ← h.2]
        exact (congrArg View.cursor h.1).symm
      rw [h.1]
      exact .resumed hv

/-- A bar of the poll loop is given to the strategy and acted on at most once,
and it counts as processed unless something fails before that. -/
theorem view_processBar (bar : Candle) (d : Driver σ) (v : View) :
    Spec (fun b => b.view = v)
      (processBar outside cfg rules strategy bar d : Part S (Driver σ))
      (fun _ b => ∃ u, v.Followed bar u ∧ b.view = u.process (some bar.openTimeMs))
      fun _ b => ∃ u, v.Followed bar u ∧ (b.view = u ∨ b.view = u.process (some bar.openTimeMs)) := by
  refine spec_runState fun state => ?_
  refine spec_bind (Q := fun _ b => b.view = v.feed [bar])
    (meets_weaken (view_onBar strategy bar d v) (fun _ h => h.1) (fun _ _ h => h)
      fun _ _ h => ⟨_, .idle, .inl h⟩) fun answered => ?_
  refine spec_bind (Q := fun _ b => v.Followed bar b.view) ?_ fun _ => ?_
  · refine spec_after runState_quiet (fun _ _ h => ⟨_, .idle, .inl h⟩) fun state => ?_
    split_ifs with hdiffers
    · refine meets_weaken (view_executeTarget outside cfg rules _ bar (v.feed [bar])) (fun _ h => h)
        ?_ ?_
      · exact fun _ _ h => .acted h
      · exact fun _ _ h => ⟨_, .acted h, .inl rfl⟩
    · exact spec_pure fun b h => by rw [h]; exact .idle
  · refine spec_bind (Q := fun _ b => ∃ u, v.Followed bar u ∧
      b.view = u.process (some bar.openTimeMs)) ?_ fun _ => spec_pure fun _ h => h
    refine spec_bind (Q := fun _ b => ∃ u, v.Followed bar u ∧
      b.view = u.process (some bar.openTimeMs)) ?_ fun _ => ?_
    · intro w hw
      obtain ⟨answers, fails⟩ :=
        view_setLastProcessed outside (some bar.openTimeMs) w.toBook.view w rfl
      exact ⟨fun a u h => ⟨_, hw, answers a u h⟩, fun e u h => (fails e u h).elim⟩
    · refine spec_bind (Q := fun _ b => ∃ u, v.Followed bar u ∧
        b.view = u.process (some bar.openTimeMs)) ?_ fun _ => spec_modifySummary fun _ h => h
      exact view_saveRunState (P := fun x => ∃ u, v.Followed bar u ∧
          x = u.process (some bar.openTimeMs))
        (R := fun _ x => ∃ u, v.Followed bar u ∧ (x = u ∨ x = u.process (some bar.openTimeMs)))
        outside fun _ _ ⟨u, hu, h⟩ => ⟨u, hu, .inr h⟩

/-- What the poll loop's bars keep of what is shown, each behind the last one
processed, and what holds wherever one of them fails. -/
structure Polled (P R : View → Prop) : Prop where
  ends {v : View} : P v → R v
  step {v u : View} {bar : Candle} : P v → (∀ t, v.cursor = some t → t < bar.openTimeMs) →
    v.Followed bar u → R u ∧ P (u.process (some bar.openTimeMs))

theorem view_processBars (polled : Polled P R) (bars : List Candle) (d : Driver σ) :
    Spec (fun b => P b.view)
      (processBars outside cfg rules strategy bars d : Part S (Driver σ))
      (fun _ b => P b.view) fun _ b => R b.view := by
  induction bars generalizing d with
  | nil => exact spec_pure fun _ h => h
  | cons bar bars ih =>
    refine spec_runState fun state => ?_
    split_ifs with hskip
    · exact spec_weaken (ih d) (fun _ h => h.1) fun _ _ h => h
    · refine spec_bind (Q := fun _ b => P b.view) ?_ fun d => ih d
      intro w hw
      have behind (t : Int64) (ht : w.toBook.view.cursor = some t) : t < bar.openTimeMs := by
        have cursor : state.lastProcessedOpenTimeMs = some t := by rw [← hw.2]; exact ht
        rw [cursor, Option.any_some, decide_eq_true_iff] at hskip
        exact Int64.not_le.mp hskip
      obtain ⟨answers, fails⟩ :=
        view_processBar outside cfg rules strategy bar d w.toBook.view w rfl
      constructor
      · intro a v hrun
        obtain ⟨u, hfollowed, hu⟩ := answers a v hrun
        show P v.toBook.view
        rw [hu]
        exact (polled.step hw.1 behind hfollowed).2
      · intro e v hrun
        obtain ⟨u, hfollowed, hu | hu⟩ := fails e v hrun
        · show R v.toBook.view
          rw [hu]
          exact (polled.step hw.1 behind hfollowed).1
        · show R v.toBook.view
          rw [hu]
          exact polled.ends (polled.step hw.1 behind hfollowed).2

variable [CandleStore S]

theorem view_polls (polled : Polled P R) (sleeps loops : Nat) (d : Driver σ) :
    Spec (fun b => P b.view)
      (polls outside cfg rules strategy sleeps loops d : Part S (Driver σ))
      (fun _ b => P b.view) fun _ b => R b.view := by
  have onePoll (d : Driver σ) : Spec (fun b => P b.view)
      (poll outside cfg rules strategy d : Part S (Driver σ)) (fun _ b => P b.view)
      fun _ b => R b.view :=
    spec_after (loadNew_quiet outside cfg) (fun _ _ h => polled.ends h) fun bars =>
      view_processBars outside cfg rules strategy polled bars d
  induction sleeps generalizing loops d with
  | zero =>
    refine spec_bind (onePoll d) fun d => ?_
    split_ifs
    · exact spec_pure fun _ h => h
    · exact spec_pure fun _ h => h
  | succ sleeps ih =>
    refine spec_bind (onePoll d) fun d => ?_
    split_ifs
    · exact spec_pure fun _ h => h
    · exact ih (loops + 1) d

/-- The bars a run's bootstrap loads. -/
def Warms (state : σ) (w : World S) (bars : List Candle) : Prop :=
  ∃ d v, warmUp outside cfg strategy state w = (.ok (bars, d), v)

/-- What a run shows of bars, from what its bootstrap shows of those it loads
and what the poll loop keeps. -/
theorem view_runInner (polled : Polled P R) {state : σ} {w : World S} {sleeps : Nat}
    (start : R w.toBook.view)
    (replayed : ∀ bars front, Warms outside cfg strategy state w bars → front <+: bars →
      R (w.toBook.view.feed front))
    (began : ∀ bars u, Warms outside cfg strategy state w bars →
      w.toBook.view.Began cfg.bootstrapEnter bars u → P u) :
    R (runInner outside cfg rules strategy sleeps state w).2.toBook.view := by
  have warms : Spec (fun b => b.view = w.toBook.view)
      (warmUp outside cfg strategy state : Part S (List Candle × Driver σ))
      (fun _ b => b.view = w.toBook.view) fun _ b => b.view = w.toBook.view := by
    refine spec_bind (Q := fun _ b => b.view = w.toBook.view)
      (view_saveRunState (P := fun u => u = w.toBook.view) outside fun _ _ h => h) fun _ => ?_
    refine spec_after (nowUtcMs_quiet outside) (fun _ _ h => h) fun now => ?_
    refine spec_after runState_quiet (fun _ _ h => h) fun run => ?_
    refine spec_after (ofExcept_quiet _) (fun _ _ h => h) fun first => ?_
    exact spec_quiet (loadBootstrap_quiet outside cfg strategy first now state) fun _ _ h => h
  obtain ⟨answers, fails⟩ := warms w rfl
  rcases bind_cases (warmUp outside cfg strategy state)
      (fun loaded => do
        let d ← bootstrap outside cfg rules strategy loaded.1 loaded.2
        let d ← polls outside cfg rules strategy sleeps 0 d
        let _ ← callback (strategy.onFinish d.ctx d.strategy)
        pure ()) w with ⟨e, v, hwarm, hrun⟩ | ⟨loaded, v, hwarm, hrun⟩
  · have same : v.toBook.view = w.toBook.view := fails e v hwarm
    show R (_ : World S).toBook.view
    have ended : runInner outside cfg rules strategy sleeps state w = (.error e, v) := hrun
    rw [ended, same]
    exact start
  · have same : v.toBook.view = w.toBook.view := answers loaded v hwarm
    have loads : Warms outside cfg strategy state w loaded.1 := ⟨loaded.2, v, hwarm⟩
    have rest : Spec (fun b => b.view = w.toBook.view) (do
        let d ← bootstrap outside cfg rules strategy loaded.1 loaded.2
        let d ← polls outside cfg rules strategy sleeps 0 d
        let _ ← callback (strategy.onFinish d.ctx d.strategy)
        pure () : Part S Unit) (fun _ b => R b.view) fun _ b => R b.view := by
      refine spec_bind (Q := fun _ b => P b.view) (meets_weaken
        (view_bootstrap outside cfg rules strategy loaded.1 loaded.2 w.toBook.view) (fun _ h => h)
        (fun _ u h => began loaded.1 _ loads h) ?_) fun d => ?_
      · rintro _ u (h | ⟨front, hfront, h⟩)
        · exact polled.ends (began loaded.1 _ loads h)
        · show R u.toBook.view
          rw [h]
          exact replayed loaded.1 front loads hfront
      · refine spec_bind (view_polls outside cfg rules strategy polled sleeps 0 d) fun d => ?_
        refine spec_after (callback_quiet _) (fun _ _ h => polled.ends h) fun _ => ?_
        exact spec_pure fun _ h => polled.ends h
    have ended : runInner outside cfg rules strategy sleeps state w = _ := hrun
    rw [ended]
    exact meets_ends rest same

end QuantForge.Live
