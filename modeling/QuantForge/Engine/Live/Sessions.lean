import QuantForge.Engine.Live.Steps

namespace QuantForge.Live

open Prog

variable {S σ : Type}

section

variable {R : View → Prop} (outside : Outside) (cfg : LiveTradeConfig σ)

/-- The state a session takes up, recorded or new. -/
def Takes (w : World S) (state : BotRunState) : Prop :=
  ∃ v, loadOrCreateRunState outside cfg w = (.ok state, v)

/-- A recorded run is taken up as it was recorded. -/
theorem takes_cases {id : String} (named : cfg.runId = some id) {w : World S}
    {state : BotRunState} (h : Takes outside cfg w state) :
    (∃ row, w.runs id = some row ∧ row.state = state) ∨
      w.runs id = none ∧ state.lastProcessedOpenTimeMs = none := by
  obtain ⟨v, hrun⟩ := h
  obtain ⟨_, w1, hchecked, h1⟩ := bind_answers hrun
  have same : w1 = w := (congrArg Prod.snd hchecked).symm
  rw [named, same] at h1
  obtain ⟨found, w2, hread, h2⟩ := bind_answers h1
  have answered : found = w.runs id := by
    unfold Part.readRun at hread
    cases hfails : outside.read w.calls with
    | some error => simp [hfails] at hread
    | none => simpa [hfails, eq_comm] using congrArg Prod.fst hread
  cases hrow : w.runs id with
  | some row =>
    rw [answered, hrow] at h2
    obtain ⟨-, w3, -, h3⟩ := bind_answers h2
    obtain ⟨again, w4, -, h4⟩ := bind_answers h3
    cases again with
    | none => cases h4
    | some other =>
      obtain ⟨-, w5, -, h5⟩ := bind_answers h4
      exact .inl ⟨row, rfl, Except.ok.inj (congrArg Prod.fst h5)⟩
  | none =>
    rw [answered, hrow] at h2
    obtain ⟨nowMs, w3, -, h3⟩ := bind_answers h2
    obtain ⟨-, w4, -, h4⟩ := bind_answers h3
    refine .inr ⟨rfl, ?_⟩
    rw [← Except.ok.inj (congrArg Prod.fst h4)]
    rfl

theorem view_createRun (state : BotRunState) (identity : RunIdentity) :
    Leaves (fun w : World S => w.toBook.view) (Part.createRun outside state identity) := by
  intro w
  unfold Part.createRun Part.writeRuns
  split
  · rfl
  · rfl

theorem view_loadOrCreate :
    Leaves (fun w : World S => w.toBook.view) (loadOrCreateRunState outside cfg) := by
  have quiet {α : Type} {x : Part S α} (h : Quiet x) :
      Leaves (fun w : World S => w.toBook.view) x := fun w => by simp only [h w]
  have joins := leaves_compositional (E := Halt) fun w : World S => w.toBook.view
  have creates (runId : String) :
      Leaves (fun w : World S => w.toBook.view) (create outside cfg runId) := by
    refine joins.andThen (quiet (nowUtcMs_quiet outside)) fun nowMs => ?_
    exact joins.andThen (view_createRun outside _ _) fun _ => joins.answer _
  refine joins.andThen (quiet (ofExcept_quiet _)) fun _ => ?_
  cases cfg.runId with
  | none => exact joins.andThen (quiet (newUuid_quiet outside)) fun id => creates _
  | some runId =>
    refine joins.andThen (quiet (readRun_quiet outside runId)) fun found => ?_
    cases found with
    | none => exact creates runId
    | some row =>
      refine joins.andThen (quiet (ofExcept_quiet _)) fun _ => ?_
      refine joins.andThen (quiet (readRun_quiet outside runId)) fun again => ?_
      cases again with
      | none => exact quiet (refuse_quiet _)
      | some other => exact joins.andThen (quiet (ofExcept_quiet _)) fun _ => joins.answer _

theorem view_stopRun (v : View) :
    Spec (fun b => b.view = v) (stopRun outside : Part S LiveTradeSummary) (fun _ b => b.view = v)
      fun _ b => b.view = v := by
  refine spec_runState fun state => spec_now outside fun updatedAtMs => ?_
  refine spec_bind (Q := fun _ b => b.view = v)
    (spec_setState fun b h => by rw [← h.1, ← h.2]; rfl) fun _ => ?_
  refine spec_bind (view_saveRunState (P := fun u => u = v) outside fun _ _ h => h) fun _ => ?_
  refine spec_bind (Q := fun _ b => b.view = v) (spec_modifySummary fun _ h => h) fun _ => ?_
  exact spec_quiet (fun _ => rfl) fun _ _ h => h

theorem view_failRun (error : EngineError) (v : View) :
    Spec (fun b => b.view = v) (failRun outside error : Part S LiveTradeSummary)
      (fun _ b => b.view = v) fun _ b => b.view = v := by
  refine spec_runState fun state => spec_now outside fun updatedAtMs => ?_
  refine spec_bind (Q := fun _ b => b.view = v)
    (spec_setState fun b h => by rw [← h.1, ← h.2]; rfl) fun _ => ?_
  refine spec_bind (view_saveRunState (P := fun u => u = v) outside fun _ _ h => h) fun _ => ?_
  exact spec_quiet (refuse_quiet error) fun _ _ h => h

/-- The last save of a session shows nothing of bars. -/
theorem view_ending (inner : Part S Unit) (w : World S) :
    (ending outside inner w).2.toBook.view = (inner w).2.toBook.view := by
  unfold ending
  rcases inner w with ⟨outcome, v⟩
  cases outcome with
  | ok _ => exact meets_ends (view_stopRun outside v.toBook.view) rfl
  | error halt =>
    cases halt with
    | failed error => exact meets_ends (view_failRun outside error v.toBook.view) rfl
    | panicked panic => rfl

variable [CandleStore S] [DecimalMath]

/-- What a session shows of bars, from what its inner run shows once it has
taken up a state. -/
theorem run_shows {w : World S} {sleeps : Nat}
    (process : ∀ v cursor, R v → R (v.process cursor)) (start : R w.toBook.view)
    (inner : ∀ state (u : World S) rules (strategy : Strategy σ) initial,
      Takes outside cfg w state → u.state = state →
      u.toBook.view = w.toBook.view.process state.lastProcessedOpenTimeMs →
      R (runInner outside cfg rules strategy sleeps initial u).2.toBook.view) :
    R (run outside cfg sleeps w).2.toBook.view := by
  have loads : (loadOrCreateRunState outside cfg w).2.toBook.view = w.toBook.view :=
    view_loadOrCreate outside cfg w
  rcases hload : loadOrCreateRunState outside cfg w with ⟨outcome, v⟩
  rw [hload] at loads
  cases outcome with
  | error halt =>
    have ended : run outside cfg sleeps w = (.error halt, v) := seq_error hload
    rw [ended]
    exact loads ▸ start
  | ok state =>
    have takes : Takes outside cfg w state := ⟨v, hload⟩
    have began : run outside cfg sleeps w = (takeUp state >>= fun _ =>
        Part.fetchSymbolRules outside >>= fun rules => drive outside cfg rules sleeps) v :=
      seq_ok hload
    let u : World S := { v with state, summary := ⟨"", 0, 0, 0, none⟩ }
    have shown : u.toBook.view = w.toBook.view.process state.lastProcessedOpenTimeMs := by
      rw [← loads]
      rfl
    have idle : R u.toBook.view := by
      rw [shown]
      exact process _ _ start
    have taken : run outside cfg sleeps w = (Part.fetchSymbolRules outside >>= fun rules =>
        drive outside cfg rules sleeps) u := began
    rw [taken]
    rcases bind_cases (Part.fetchSymbolRules outside) (fun rules => drive outside cfg rules sleeps) u
      with ⟨e, x, hfetch, hrun⟩ | ⟨rules, x, hfetch, hrun⟩
    · rw [hrun, ← congrArg Prod.snd hfetch]
      exact idle
    · have same : x = u.called := (congrArg Prod.snd hfetch).symm
      rw [hrun, same]
      rcases bind_cases (callback cfg.strategy.build)
          (fun built => ending outside
            (runInner outside cfg rules built.1 sleeps built.2)) u.called with
        ⟨e, y, hbuild, hdrive⟩ | ⟨built, y, hbuild, hdrive⟩
      · have ended : drive outside cfg rules sleeps u.called = (.error e, y) := hdrive
        rw [ended, ← congrArg Prod.snd hbuild]
        exact idle
      · have driven : drive outside cfg rules sleeps u.called =
            ending outside (runInner outside cfg rules built.1 sleeps built.2) y := hdrive
        have same : y = u.called := (congrArg Prod.snd hbuild).symm
        rw [driven, view_ending, same]
        exact inner state u.called rules built.1 built.2 takes rfl shown

end

end QuantForge.Live
